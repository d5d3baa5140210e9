import Jayess.Webparse.Selection

/-!
# Texts of selectors
-/

namespace Jayess.Webparse

open TreeOrder

section Cutting

variable {separator : Char} {text rest token : List Char}

theorem cut_append (htext : separator ∉ text) : cut separator (text ++ separator :: rest) = some (text, rest) := by
  have htake : (text ++ separator :: rest).takeWhile (· ≠ separator) = text := by
    rw [List.takeWhile_append_of_pos]
    · simp
    · intro ch hch
      exact decide_eq_true (ne_of_mem_of_not_mem hch htext)
  have hdrop : (text ++ separator :: rest).dropWhile (· ≠ separator) = separator :: rest := by
    rw [List.dropWhile_append_of_pos]
    · simp
    · intro ch hch
      exact decide_eq_true (ne_of_mem_of_not_mem hch htext)
  rw [cut, if_pos (by simp), htake, hdrop, List.drop_one, List.tail_cons]

theorem cut_eq_none (htext : separator ∉ text) : cut separator text = none := if_neg htext

end Cutting

section Simple

variable {name : List Char} {attributes : List Attribute} {ref : Ref}

variable {ch : Char}

theorem not_mem_name (name : Name) (hch : ch ∈ ['>', ':', '.', '#', '[', ']']) : ch ∉ name.chars :=
  fun hmem => (name.valid ch hmem).2 hch

theorem head?_name_ne (name : Name) (rest : List Char) (hch : ch ∈ ['>', ':', '.', '#', '[', ']']) :
    (name.chars ++ rest).head? ≠ some ch := by
  obtain ⟨first, chars, hname⟩ := List.exists_cons_of_ne_nil name.ne_nil
  rw [hname, List.cons_append, List.head?_cons]
  intro hsame
  refine not_mem_name name hch ?_
  rw [hname, ← Option.some.inj hsame]
  exact List.mem_cons_self

theorem matchesBase_text (base : Base) :
    matchesBase name attributes base.text = true ↔ base.Matches name attributes := by
  cases base with
  | tag value =>
      have hhead : ∀ ch ∈ ['>', ':', '.', '#', '[', ']'], value.chars.head? ≠ some ch := by
        intro ch hch
        have hne := head?_name_ne value [] hch
        rwa [List.append_nil] at hne
      rw [Base.text, Base.Matches, matchesBase, if_neg (hhead '#' (by decide)), if_neg (hhead '.' (by decide)),
        if_neg fun hboth => hhead '[' (by decide) hboth.1, cut_eq_none (not_mem_name value (by decide))]
      exact decide_eq_true_iff
  | id value =>
      have hhead : ('#' :: value.chars).head? = some '#' := rfl
      rw [Base.text, Base.Matches, matchesBase, if_pos hhead, List.drop_one, List.tail_cons, attrEquals]
      simp
  | className value =>
      have hhead : ('.' :: value.chars).head? = some '.' := rfl
      rw [Base.text, Base.Matches, matchesBase, if_neg (by simp), if_pos hhead, List.drop_one, List.tail_cons,
        hasClass]
      simp
  | attr value =>
      have hhead : ('[' :: value.chars ++ [']']).head? = some '[' := rfl
      have hlast : ('[' :: value.chars ++ [']']).getLast? = some ']' := List.getLast?_concat
      rw [Base.text, Base.Matches, matchesBase, if_neg (by simp), if_neg (by simp), if_pos ⟨hhead, hlast⟩,
        List.cons_append, List.drop_one, List.tail_cons, List.dropLast_concat, hasAttr]
      simp
  | tagClass value other =>
      have hhead : ∀ ch ∈ ['>', ':', '.', '#', '[', ']'], (value.chars ++ '.' :: other.chars).head? ≠ some ch :=
        fun ch hch => head?_name_ne value _ hch
      rw [Base.text, Base.Matches, matchesBase, if_neg (hhead '#' (by decide)), if_neg (hhead '.' (by decide)),
        if_neg fun hboth => hhead '[' (by decide) hboth.1, cut_append (not_mem_name value (by decide))]
      simp [hasClass]

theorem not_mem_base (base : Base) (hch : ch ∈ ['>', ':']) : ch ∉ base.text := by
  have hname : ∀ name : Name, ch ∉ name.chars := by
    intro name
    refine not_mem_name name ?_
    rcases List.mem_pair.mp hch with rfl | rfl <;> decide
  have hother : ch ≠ '#' ∧ ch ≠ '.' ∧ ch ≠ '[' ∧ ch ≠ ']' := by
    rcases List.mem_pair.mp hch with rfl | rfl <;> decide
  cases base <;> simp [Base.text, hname, hother]

theorem parent_of_mem {documentName : String} {children : List Node} {span : Span}
    (href : ref ∈ traverseDFS (documentRef documentName children span)) : isElement ref.node = false ∨
      ∃ parent index, ref.parent = some parent ∧ ref.path.getLast? = some index ∧
        parent.children[index]? = some ref.node := by
  obtain ⟨indices, hindices⟩ := exists_descend href
  obtain rfl | ⟨front, index, rfl⟩ := List.eq_nil_or_concat indices
  · rw [← Option.some.inj hindices]
    exact .inl rfl
  · rw [List.concat_eq_append, descend_append, Option.bind_eq_some_iff] at hindices
    obtain ⟨up, -, hchild⟩ := hindices
    rw [Ref.descend, Option.bind_eq_some_iff] at hchild
    obtain ⟨next, hnext, hsame⟩ := hchild
    obtain rfl : next = ref := Option.some.inj hsame
    rw [getElem?_children, Option.map_eq_some_iff] at hnext
    obtain ⟨node, hnode, rfl⟩ := hnext
    exact .inr ⟨up.node, index, rfl, List.getLast?_concat, hnode⟩

theorem matchesPseudo_firstChild {parent : Node} {index : Nat} (helement : isElement ref.node = true)
    (hparent : ref.parent = some parent) (hlast : ref.path.getLast? = some index)
    (hnode : parent.children[index]? = some ref.node) :
    matchesPseudo ref firstChildPseudo = true ↔ FirstChild ref := by
  have hpseudo : matchesPseudo ref firstChildPseudo = true ↔ parent.children.findIdx? isElement = some index := by
    rw [matchesPseudo, if_neg (by decide), if_neg (by decide)]
    simp only [hparent]
    cases hfind : parent.children.findIdx? isElement with
    | none => exact iff_of_false (by simp) (by simp)
    | some found =>
        rw [hlast]
        simp only [decide_eq_true_eq]
        exact eq_comm
  obtain ⟨hbound, hget⟩ := List.getElem?_eq_some_iff.mp hnode
  rw [hpseudo, List.findIdx?_eq_some_iff_getElem, FirstChild]
  constructor
  · rintro ⟨_, _, hbefore⟩
    refine ⟨parent, index, hparent, hlast, fun sibling hsibling => ?_⟩
    obtain ⟨earlier, hearlier, hsame⟩ := List.getElem_of_mem hsibling
    rw [List.length_take] at hearlier
    rw [List.getElem_take] at hsame
    rw [← hsame]
    exact Bool.eq_false_iff.mpr (hbefore earlier (by omega))
  · rintro ⟨other, position, hother, hposition, hbefore⟩
    obtain rfl : parent = other := Option.some.inj (hparent.symm.trans hother)
    obtain rfl : index = position := Option.some.inj (hlast.symm.trans hposition)
    refine ⟨hbound, hget ▸ helement, fun earlier hearlier => Bool.eq_false_iff.mp (hbefore _ ?_)⟩
    exact List.mem_take_iff_getElem.mpr ⟨earlier, by omega, rfl⟩

theorem cut_simple (simple : Simple) : (cut ':' simple.text).getD (simple.text, []) =
    (simple.base.text, if simple.firstChild then firstChildPseudo else []) := by
  have hbase := not_mem_base simple.base (by decide : ':' ∈ ['>', ':'])
  rw [Simple.text]
  split_ifs
  · rw [cut_append hbase]
    rfl
  · rw [List.append_nil, cut_eq_none hbase]
    rfl

theorem matchSimpleSelector_text {documentName : String} {children : List Node} {span : Span} (simple : Simple)
    (href : ref ∈ traverseDFS (documentRef documentName children span)) :
    matchSimpleSelector ref simple.text = true ↔ simple.Matches ref := by
  rw [matchSimpleSelector, Simple.Matches]
  cases hnode : ref.node with
  | document _ _ _ => simp
  | leaf _ _ _ => simp
  | element name attributes below place =>
      have helement : isElement ref.node = true := by rw [hnode]; rfl
      obtain ⟨parent, index, hparent, hlast, hchild⟩ := (parent_of_mem href).resolve_left (by simp [helement])
      have hpseudo : matchesPseudo ref (if simple.firstChild then firstChildPseudo else []) = true ↔
          (simple.firstChild = true → FirstChild ref) := by
        split_ifs with hfirst
        · rw [matchesPseudo_firstChild helement hparent hlast hchild, imp_iff_right hfirst]
        · exact iff_of_true rfl fun hyes => absurd hyes hfirst
      simp only [cut_simple, Bool.and_eq_true, matchesBase_text, hpseudo]
      constructor
      · intro hboth
        exact ⟨name, attributes, below, place, rfl, hboth⟩
      · rintro ⟨_, _, _, _, hsame, hboth⟩
        obtain ⟨rfl, rfl, -, -⟩ := Node.element.inj hsame
        exact hboth

end Simple

section Spaces

variable {text token rest : List Char} {steps : List (Combinator × Simple)}

theorem trimSpace_blank (leading trailing : Blank) (htext : Slices.Trimmed isSpace text) (hne : text ≠ []) :
    trimSpace (leading.chars ++ text ++ trailing.chars) = text := by
  have hdrop : (leading.chars ++ text ++ trailing.chars).dropWhile isSpace = text ++ trailing.chars := by
    rw [List.append_assoc, List.dropWhile_append_of_pos leading.blank]
    obtain ⟨first, chars, rfl⟩ := List.exists_cons_of_ne_nil hne
    rw [List.cons_append, List.dropWhile_cons_of_neg]
    simpa using htext.1 first rfl
  have hreverse : (text ++ trailing.chars).reverse.dropWhile isSpace = text.reverse := by
    rw [List.reverse_append, List.dropWhile_append_of_pos fun ch hch => trailing.blank ch (List.mem_reverse.mp hch)]
    obtain ⟨chars, last, rfl⟩ := (List.eq_nil_or_concat text).resolve_left hne
    rw [List.concat_eq_append, List.reverse_append, List.reverse_singleton, List.singleton_append,
      List.dropWhile_cons_of_neg]
    have hlast := htext.2 last (by simp)
    simpa using hlast
  rw [trimSpace, Slices.trim, hdrop, List.rdropWhile, hreverse, List.reverse_reverse]

def Solid (text : List Char) : Prop := text ≠ [] ∧ ∀ ch ∈ text, isSpace ch = false

theorem fields_solid (htoken : Solid token) : fields token = [token] := by
  rw [fields, List.splitOnP_eq_singleton htoken.2]
  simp [htoken.1]

theorem fields_append (htoken : Solid token) {ch : Char} (hspace : isSpace ch = true) (rest : List Char) :
    fields (token ++ ch :: rest) = token :: fields rest := by
  rw [fields, List.splitOnP_append_cons_of_forall_mem htoken.2 ch hspace,
    List.filter_cons_of_pos (by simpa using htoken.1), fields]

theorem fields_blank (leading : List Char) (hblank : ∀ ch ∈ leading, isSpace ch = true) (rest : List Char) :
    fields (leading ++ rest) = fields rest := by
  induction leading with
  | nil => rfl
  | cons ch leading ih =>
      rw [List.forall_mem_cons] at hblank
      rw [List.cons_append, fields, List.splitOnP_cons_eq_if_modifyHead, if_pos hblank.1,
        List.filter_cons_of_neg (by simp)]
      exact ih hblank.2

theorem isSpace_ne {ch : Char} (hspace : isSpace ch = true) : ch ≠ '>' := by
  rintro rfl
  revert hspace
  decide

theorem solid_simple (simple : Simple) : Solid simple.text ∧ '>' ∉ simple.text := by
  have hspecial : ∀ ch ∈ ['#', '.', '[', ']', ':', 'f', 'i', 'r', 's', 't', '-', 'c', 'h', 'i', 'l', 'd'],
      isSpace ch = false := by simp [isSpace]
  have hbase : simple.base.text ≠ [] ∧ ∀ ch ∈ simple.base.text, isSpace ch = false := by
    have hname : ∀ name : Name, ∀ ch ∈ name.chars, isSpace ch = false := fun name ch hch => (name.valid ch hch).1
    cases simple.base with
    | tag name => exact ⟨name.ne_nil, hname name⟩
    | id value => exact ⟨by simp [Base.text], by simpa [Base.text, hspecial] using hname value⟩
    | className value => exact ⟨by simp [Base.text], by simpa [Base.text, hspecial] using hname value⟩
    | attr name =>
        refine ⟨by simp [Base.text], fun ch hch => ?_⟩
        simp only [Base.text, List.cons_append, List.mem_cons, List.mem_append, List.not_mem_nil, or_false] at hch
        rcases hch with rfl | hch | rfl
        · exact hspecial _ (by decide)
        · exact hname name ch hch
        · exact hspecial _ (by decide)
    | tagClass name value =>
        refine ⟨by simp [Base.text], fun ch hch => ?_⟩
        simp only [Base.text, List.mem_append, List.mem_cons] at hch
        rcases hch with hch | rfl | hch
        · exact hname name ch hch
        · exact hspecial _ (by decide)
        · exact hname value ch hch
  have hpseudo : ∀ ch ∈ ':' :: firstChildPseudo, isSpace ch = false ∧ ch ≠ '>' := by
    simp [firstChildPseudo, isSpace]
  have hchild := not_mem_base simple.base (by decide : '>' ∈ ['>', ':'])
  rw [Simple.text]
  split_ifs
  · refine ⟨⟨by simp, fun ch hch => ?_⟩, fun hmem => ?_⟩
    · exact (List.mem_append.mp hch).elim (hbase.2 ch) fun hch => (hpseudo ch hch).1
    · exact (List.mem_append.mp hmem).elim hchild fun hch => (hpseudo _ hch).2 rfl
  · rw [List.append_nil]
    exact ⟨hbase, hchild⟩

theorem head?_simple (simple : Simple) (rest : List Char) :
    ∀ ch ∈ (simple.text ++ rest).head?, isSpace ch = false := by
  obtain ⟨⟨hne, hsolid⟩, -⟩ := solid_simple simple
  rw [List.head?_append_of_ne_nil _ hne]
  exact fun ch hch => hsolid ch (List.mem_of_mem_head? hch)

theorem trimmed_steps (simple : Simple) (steps : List (Combinator × Simple)) :
    Slices.Trimmed isSpace (simple.text ++ stepsText steps) := by
  refine ⟨head?_simple simple _, fun ch hch => ?_⟩
  have hlast : ∀ simple : Simple, ∀ front : List Char, ∀ ch ∈ (front ++ simple.text).getLast?,
      isSpace ch = false := by
    intro simple front ch hch
    obtain ⟨⟨hne, hsolid⟩, -⟩ := solid_simple simple
    rw [List.getLast?_append_of_ne_nil _ hne] at hch
    exact hsolid ch (List.mem_of_getLast? hch)
  obtain rfl | ⟨front, last, rfl⟩ := List.eq_nil_or_concat steps
  · exact hlast simple [] ch (by simpa [stepsText] using hch)
  · refine hlast last.2 (simple.text ++ stepsText front ++ last.1.text) ch ?_
    simpa [stepsText, List.append_assoc] using hch

theorem fields_descendants (simple : Simple) (hsteps : ∀ step ∈ steps, step.1.isDescendant = true) :
    fields (simple.text ++ stepsText steps) = (simple :: steps.map Prod.snd).map Simple.text := by
  induction steps generalizing simple with
  | nil =>
      rw [stepsText, List.flatMap_nil, List.append_nil]
      exact fields_solid (solid_simple simple).1
  | cons step steps ih =>
      rw [List.forall_mem_cons] at hsteps
      obtain ⟨combinator, next⟩ := step
      cases combinator with
      | child before after => exact absurd hsteps.1 (by simp [Combinator.isDescendant])
      | descendant gap hne =>
          obtain ⟨space, gap', hgap⟩ := List.exists_cons_of_ne_nil hne
          have hblank := gap.blank
          rw [hgap, List.forall_mem_cons] at hblank
          have hnext : stepsText ((.descendant gap hne, next) :: steps) =
              space :: (gap' ++ (next.text ++ stepsText steps)) := by
            rw [stepsText, List.flatMap_cons, Combinator.text, hgap, ← stepsText]
            simp
          rw [hnext, fields_append (solid_simple simple).1 hblank.1, fields_blank gap' hblank.2, ih next hsteps.2]
          rfl

theorem not_mem_descendants (simple : Simple) (hsteps : ∀ step ∈ steps, step.1.isDescendant = true) :
    '>' ∉ simple.text ++ stepsText steps := by
  rw [List.mem_append, not_or]
  refine ⟨(solid_simple simple).2, fun hmem => ?_⟩
  obtain ⟨⟨combinator, next⟩, hstep, hch⟩ := List.mem_flatMap.mp hmem
  have hdescendant := hsteps _ hstep
  cases combinator with
  | child before after => simp [Combinator.isDescendant] at hdescendant
  | descendant gap hne =>
      rcases List.mem_append.mp hch with hch | hch
      · exact isSpace_ne (gap.blank _ hch) rfl
      · exact (solid_simple next).2 hch

end Spaces

end Jayess.Webparse
