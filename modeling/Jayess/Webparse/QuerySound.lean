import Jayess.Webparse.SelectorTexts

/-!
# What queries find
-/

namespace Jayess.Webparse

open TreeOrder

section Steps

variable {documentName : String} {children : List Node} {span : Span} {root ref place : Ref} {selector : List Char}

def descendStep (selector : List Char) (place : Ref) : List Ref :=
  ((traverseDFS place).filter (matchSimpleSelector · selector)).filter fun child => child.path ≠ place.path

def childStep (selector : List Char) (place : Ref) : List Ref :=
  place.children.filter (matchSimpleSelector · selector)

theorem mem_descendStep (hplace : place ∈ traverseDFS root) : ref ∈ descendStep selector place ↔
    ref ∈ traverseDFS root ∧ Above place.path ref.path ∧ matchSimpleSelector ref selector = true := by
  rw [descendStep, List.mem_filter, List.mem_filter, mem_traverseDFS_of_inside hplace, decide_eq_true_iff, Above]
  constructor
  · rintro ⟨⟨⟨hmem, hbegins⟩, hmatch⟩, hne⟩
    exact ⟨hmem, ⟨hbegins, hne.symm⟩, hmatch⟩
  · rintro ⟨hmem, ⟨hbegins, hne⟩, hmatch⟩
    exact ⟨⟨⟨hmem, hbegins⟩, hmatch⟩, hne.symm⟩

theorem mem_childStep (hplace : place ∈ traverseDFS root) : ref ∈ childStep selector place ↔
    ref ∈ traverseDFS root ∧ ParentOf place ref ∧ matchSimpleSelector ref selector = true := by
  rw [childStep, List.mem_filter, mem_children_iff hplace, and_assoc]

theorem inner_descendStep (root : Ref) (selector : List Char) :
    Inner Ref.path (· ∈ traverseDFS root) (descendStep selector) where
  sorted place _ := ((sorted_traverseDFS place).filter _).filter _
  below place hplace found hfound := by
    obtain ⟨hmem, habove, -⟩ := (mem_descendStep hplace).mp hfound
    exact ⟨hmem, habove⟩

theorem inherits_descendStep (root : Ref) (selector : List Char) :
    Inherits Ref.path (· ∈ traverseDFS root) (descendStep selector) := by
  intro outer inner houter hinner habove found hfound
  obtain ⟨hmem, hbelow, hmatch⟩ := (mem_descendStep hinner).mp hfound
  exact (mem_descendStep houter).mpr ⟨hmem, habove.trans_prefix hbelow.1, hmatch⟩

theorem inner_childStep (root : Ref) (selector : List Char) :
    Inner Ref.path (· ∈ traverseDFS root) (childStep selector) where
  sorted place _ := (sorted_children place).filter _
  below place hplace found hfound := by
    obtain ⟨hmem, hparent, -⟩ := (mem_childStep hplace).mp hfound
    exact ⟨hmem, parentOf_above hparent⟩

end Steps

section Queries

variable {root : Ref} {rounds : Nat} {steps : List (Combinator × Simple)}

def searchSteps (simples : List Simple) : List (Ref → List Ref) := simples.map fun simple => descendStep simple.text

theorem queryRounds_simple (simple : Simple) (root : Ref) (rounds : Nat) :
    queryRounds (rounds + 1) root simple.text = (traverseDFS root).filter (matchSimpleSelector · simple.text) := by
  have htrim : trimSpace simple.text = simple.text := by
    have htrimmed := (trimmed_steps simple []).trim_eq
    rwa [stepsText, List.flatMap_nil, List.append_nil] at htrimmed
  obtain ⟨hsolid, hchild⟩ := solid_simple simple
  have hsingle : ¬1 < (fields simple.text).length := by
    rw [fields_solid hsolid]
    simp
  rw [queryRounds]
  simp only [htrim, if_neg hsolid.1, cut_eq_none hchild, if_neg hsingle]

theorem descendStep_root (hroot : isElement root.node = false) (selector : List Char) :
    descendStep selector root = (traverseDFS root).filter (matchSimpleSelector · selector) := by
  rw [descendStep, List.filter_eq_self]
  intro found hfound
  obtain ⟨hmem, hmatch⟩ := List.mem_filter.mp hfound
  refine decide_eq_true fun hpath => ?_
  obtain rfl := eq_of_path_eq hmem (root_mem_traverseDFS root) hpath
  rw [matchSimpleSelector] at hmatch
  cases hnode : found.node with
  | element _ _ _ _ => rw [hnode] at hroot; cases hroot
  | document _ _ _ => rw [hnode] at hmatch; cases hmatch
  | leaf _ _ _ => rw [hnode] at hmatch; cases hmatch

theorem queryDescendant_eq (simples : List Simple) (root : Ref) (rounds : Nat) :
    queryDescendant (queryRounds (rounds + 1)) root (simples.map Simple.text) = run (searchSteps simples) root := by
  have hstep : ∀ current : List Ref, ∀ simple : Simple,
      (current.flatMap fun node => (queryRounds (rounds + 1) node simple.text).filter fun child =>
        child.path ≠ node.path) = current.flatMap (descendStep simple.text) := by
    intro current simple
    simp only [queryRounds_simple]
    rfl
  rw [queryDescendant, List.foldl_map]
  simp only [hstep]
  have hrun := foldl_flatMap (searchSteps simples) [root]
  rw [List.flatMap_singleton] at hrun
  rw [← hrun, searchSteps, List.foldl_map]

theorem queryRounds_descendants (hroot : isElement root.node = false) (simple : Simple)
    (hsteps : ∀ step ∈ steps, step.1.isDescendant = true) (hrounds : 2 ≤ rounds) :
    queryRounds rounds root (simple.text ++ stepsText steps) =
      run (searchSteps (simple :: steps.map Prod.snd)) root := by
  obtain ⟨rounds, rfl⟩ := Nat.exists_eq_add_of_le' hrounds
  cases steps with
  | nil =>
      have hrun : run (searchSteps [simple]) root = descendStep simple.text root :=
        congrFun (run_last (descendStep simple.text)) root
      rw [stepsText, List.flatMap_nil, List.append_nil, queryRounds_simple, List.map_nil, hrun,
        descendStep_root hroot]
  | cons step steps =>
      have hne : simple.text ++ stepsText (step :: steps) ≠ [] := by
        simp [(solid_simple simple).1.1]
      have hfields := fields_descendants simple hsteps
      have hmany : 1 < (fields (simple.text ++ stepsText (step :: steps))).length := by
        rw [hfields]
        simp
      rw [queryRounds]
      simp only [trimSpace, (trimmed_steps simple (step :: steps)).trim_eq, if_neg hne,
        cut_eq_none (not_mem_descendants simple hsteps), if_pos hmany]
      rw [hfields, queryDescendant_eq]

theorem queryRounds_child (hroot : isElement root.node = false) (simple : Simple)
    (hsteps : ∀ step ∈ steps, step.1.isDescendant = true) (before after : Blank) (next : Simple)
    (later : List (Combinator × Simple)) (hrounds : 2 ≤ rounds) :
    queryRounds (rounds + 1) root
        (simple.text ++ stepsText (steps ++ (.child before after, next) :: later)) =
      run (searchSteps (simple :: steps.map Prod.snd) ++ [childStep (next.text ++ stepsText later)]) root := by
  have hne : simple.text ++ stepsText (steps ++ (.child before after, next) :: later) ≠ [] := by
    simp [(solid_simple simple).1.1]
  have hsplit : simple.text ++ stepsText (steps ++ (.child before after, next) :: later) =
      ((simple.text ++ stepsText steps) ++ before.chars) ++
        '>' :: (after.chars ++ (next.text ++ stepsText later)) := by
    simp [stepsText, Combinator.text, List.append_assoc]
  have hbefore : '>' ∉ (simple.text ++ stepsText steps) ++ before.chars := by
    rw [List.mem_append, not_or]
    exact ⟨not_mem_descendants simple hsteps, fun hmem => isSpace_ne (before.blank _ hmem) rfl⟩
  have hleft : trimSpace ((simple.text ++ stepsText steps) ++ before.chars) = simple.text ++ stepsText steps := by
    have htrim := trimSpace_blank ⟨[], by simp⟩ before (trimmed_steps simple steps)
      (by simp [(solid_simple simple).1.1])
    rwa [List.nil_append] at htrim
  have hright : trimSpace (after.chars ++ (next.text ++ stepsText later)) = next.text ++ stepsText later := by
    have htrim := trimSpace_blank after ⟨[], by simp⟩ (trimmed_steps next later)
      (by simp [(solid_simple next).1.1])
    rwa [List.append_nil] at htrim
  have hcut : cut '>' (simple.text ++ stepsText (steps ++ (.child before after, next) :: later)) =
      some ((simple.text ++ stepsText steps) ++ before.chars, after.chars ++ (next.text ++ stepsText later)) := by
    rw [hsplit, cut_append hbefore]
  have htrim : trimSpace (simple.text ++ stepsText (steps ++ (.child before after, next) :: later)) =
      simple.text ++ stepsText (steps ++ (.child before after, next) :: later) := (trimmed_steps simple _).trim_eq
  rw [queryRounds]
  simp only [htrim, if_neg hne, hcut, hleft, hright]
  rw [queryChild, queryRounds_descendants hroot simple hsteps hrounds, run_append, run_last]
  rfl


theorem queryRounds_blank (selector : Selector) (root : Ref) (rounds : Nat) :
    queryRounds (rounds + 1) root selector.text =
      queryRounds (rounds + 1) root (selector.first.text ++ stepsText selector.steps) := by
  have htrimmed := trimmed_steps selector.first selector.steps
  have hne : selector.first.text ++ stepsText selector.steps ≠ [] := by
    simp [(solid_simple selector.first).1.1]
  have hwhole : trimSpace selector.text = selector.first.text ++ stepsText selector.steps :=
    trimSpace_blank selector.leading selector.trailing htrimmed hne
  have hcore : trimSpace (selector.first.text ++ stepsText selector.steps) =
      selector.first.text ++ stepsText selector.steps := htrimmed.trim_eq
  rw [queryRounds, queryRounds, hwhole, hcore]

theorem mem_takeWhile_descendant (steps : List (Combinator × Simple)) :
    ∀ step ∈ steps.takeWhile fun step => step.1.isDescendant, step.1.isDescendant = true :=
  fun _ hstep => List.mem_takeWhile_imp (p := fun step : Combinator × Simple => step.1.isDescendant) hstep

theorem length_text (selector : Selector) : selector.first.text.length + (stepsText selector.steps).length ≤
    selector.text.length := by
  rw [Selector.text, List.length_append, List.length_append, List.length_append]
  omega

theorem query_descendants (hroot : isElement root.node = false) {selector : Selector} (hrest : selector.rest = []) :
    query root selector.text = run (searchSteps selector.front) root := by
  have hsteps : (selector.steps.takeWhile fun step => step.1.isDescendant) = selector.steps := by
    have hwhole := List.takeWhile_append_dropWhile (p := fun step => step.1.isDescendant) (l := selector.steps)
    rwa [← Selector.rest, hrest, List.append_nil] at hwhole
  have hall := mem_takeWhile_descendant selector.steps
  have hpos := List.length_pos_iff.mpr (solid_simple selector.first).1.1
  have hlength := length_text selector
  rw [query, queryRounds_blank, Selector.front, hsteps]
  rw [hsteps] at hall
  exact queryRounds_descendants hroot selector.first hall (by omega)

theorem query_child (hroot : isElement root.node = false) {selector : Selector} (hrest : selector.rest ≠ []) :
    query root selector.text = run (searchSteps selector.front ++ [childStep selector.restText]) root := by
  obtain ⟨⟨combinator, next⟩, later, hlater⟩ := List.exists_cons_of_ne_nil hrest
  have hwhole := List.takeWhile_append_dropWhile (p := fun step => step.1.isDescendant) (l := selector.steps)
  rw [← Selector.rest, hlater] at hwhole
  have hrestText : selector.restText = next.text ++ stepsText later := by
    rw [Selector.restText, hlater]
    rfl
  have hpos := List.length_pos_iff.mpr (solid_simple selector.first).1.1
  have hlength := length_text selector
  cases combinator with
  | descendant gap hne =>
      have hhead := List.head?_dropWhile_not (fun step : Combinator × Simple => step.1.isDescendant) selector.steps
      rw [← Selector.rest, hlater] at hhead
      simp [Combinator.isDescendant] at hhead
  | child before after =>
      have hsome : 0 < (stepsText selector.steps).length := by
        rw [← hwhole, stepsText, List.flatMap_append, List.flatMap_cons, Combinator.text, List.length_append,
          List.length_append, List.length_append, List.length_append, List.length_cons]
        omega
      obtain ⟨rounds, hrounds⟩ := Nat.exists_eq_add_of_le' (show 1 ≤ selector.text.length by omega)
      rw [query, queryRounds_blank, ← hwhole, hrestText]
      exact queryRounds_child hroot selector.first (mem_takeWhile_descendant selector.steps) before after next later
        (by omega)

end Queries

section Found

variable {documentName : String} {children : List Node} {span : Span} {ref : Ref}

variable {simples : List Simple}

theorem mem_routes_iff {place : Ref} {route : List Ref}
    (hplace : place ∈ traverseDFS (documentRef documentName children span)) :
    route ∈ routes (searchSteps simples) place ↔
      List.Forall₂ (fun simple ref =>
        ref ∈ traverseDFS (documentRef documentName children span) ∧ simple.Matches ref) simples route ∧
      (place :: route).IsChain fun outer inner => Above outer.path inner.path := by
  induction simples generalizing place route with
  | nil =>
      rw [searchSteps, List.map_nil, routes, List.mem_singleton, List.forall₂_nil_left_iff]
      constructor
      · rintro rfl
        exact ⟨rfl, List.IsChain.singleton _⟩
      · exact And.left
  | cons simple simples ih =>
      rw [searchSteps, List.map_cons, routes, List.mem_flatMap]
      constructor
      · rintro ⟨found, hfound, hroute⟩
        obtain ⟨later, hlater, rfl⟩ := List.mem_map.mp hroute
        obtain ⟨hmem, habove, hmatch⟩ := (mem_descendStep hplace).mp hfound
        obtain ⟨hall, hchain⟩ := (ih hmem).mp hlater
        exact ⟨.cons ⟨hmem, (matchSimpleSelector_text simple hmem).mp hmatch⟩ hall, .cons_cons habove hchain⟩
      · rintro ⟨hall, hchain⟩
        obtain ⟨found, later, ⟨hmem, hmatch⟩, hlater, rfl⟩ := List.forall₂_cons_left_iff.mp hall
        rw [List.isChain_cons_cons] at hchain
        have hfound := (mem_descendStep hplace).mpr
          ⟨hmem, hchain.1, (matchSimpleSelector_text simple hmem).mpr hmatch⟩
        exact ⟨found, hfound, List.mem_map.mpr ⟨later, (ih hmem).mpr ⟨hlater, hchain.2⟩, rfl⟩⟩

theorem mem_routes_root_iff {route : List Ref} :
    route ∈ routes (searchSteps simples) (documentRef documentName children span) ↔
      Chain (documentRef documentName children span) simples route := by
  rw [mem_routes_iff (root_mem_traverseDFS _), Chain]
  refine and_congr_right fun hall => ?_
  cases hall with
  | nil => simp
  | @cons simple first simples route hfirst hall =>
      rw [List.isChain_cons_cons, and_iff_right]
      refine ⟨List.nil_prefix, fun hpath => ?_⟩
      have hsame := eq_of_path_eq (root_mem_traverseDFS _) hfirst.1 hpath
      obtain ⟨name, attributes, below, place, hnode, -⟩ := hfirst.2
      rw [← hsame] at hnode
      cases hnode

theorem mem_run_iff_chain {simple : Simple} :
    ref ∈ run (searchSteps (simple :: simples)) (documentRef documentName children span) ↔
      ∃ chain, Chain (documentRef documentName children span) (simple :: simples) chain ∧
        chain.getLast? = some ref := by
  rw [run_eq_map_routes, List.mem_map]
  constructor
  · rintro ⟨route, hroute, hlast⟩
    have hchain := mem_routes_root_iff.mp hroute
    refine ⟨route, hchain, ?_⟩
    obtain ⟨first, rest, -, -, rfl⟩ := List.forall₂_cons_left_iff.mp hchain.1
    rw [← hlast, List.getLastD_cons, List.getLast?_cons, List.getLastD_eq_getLast?]
  · rintro ⟨chain, hchain, hlast⟩
    refine ⟨chain, mem_routes_root_iff.mpr hchain, ?_⟩
    rw [List.getLastD_eq_getLast?, hlast]
    rfl

theorem mem_foldl_iff {root : Ref} {steps : List (Combinator × Simple)} {found : List Ref} {holds : Ref → Prop}
    (hroot : ∃ name children span, root = documentRef name children span)
    (hsteps : ∀ step ∈ steps, step.1.isDescendant = true)
    (hfound : ∀ ref, ref ∈ found ↔ ref ∈ traverseDFS root ∧ holds ref) (ref : Ref) :
    ref ∈ (searchSteps (steps.map Prod.snd)).foldl (fun found step => found.flatMap step) found ↔
      ref ∈ traverseDFS root ∧ steps.foldl (Extends root) holds ref := by
  induction steps generalizing found holds with
  | nil => exact hfound ref
  | cons step steps ih =>
      rw [List.forall_mem_cons] at hsteps
      rw [List.map_cons, searchSteps, List.map_cons, List.foldl_cons, List.foldl_cons]
      refine ih hsteps.2 fun ref => ?_
      obtain ⟨name, children, span, rfl⟩ := hroot
      obtain ⟨combinator, simple⟩ := step
      cases combinator with
      | child before after => exact absurd hsteps.1 (by simp [Combinator.isDescendant])
      | descendant gap hne =>
          rw [List.mem_flatMap, Extends]
          constructor
          · rintro ⟨outer, houter, hstep⟩
            obtain ⟨hmem, hholds⟩ := (hfound outer).mp houter
            obtain ⟨hrefMem, habove, hmatch⟩ := (mem_descendStep hmem).mp hstep
            exact ⟨hrefMem, (matchSimpleSelector_text simple hrefMem).mp hmatch, outer, hmem, habove, hholds⟩
          · rintro ⟨hrefMem, hmatch, outer, hmem, habove, hholds⟩
            exact ⟨outer, (hfound outer).mpr ⟨hmem, hholds⟩, (mem_descendStep hmem).mpr
              ⟨hrefMem, habove, (matchSimpleSelector_text simple hrefMem).mpr hmatch⟩⟩

theorem mem_run_front (selector : Selector) (ref : Ref) :
    ref ∈ run (searchSteps selector.front) (documentRef documentName children span) ↔
      ref ∈ traverseDFS (documentRef documentName children span) ∧
        (selector.steps.takeWhile fun step => step.1.isDescendant).foldl
          (Extends (documentRef documentName children span)) selector.first.Matches ref := by
  have hfirst : ∀ ref, ref ∈ descendStep selector.first.text (documentRef documentName children span) ↔
      ref ∈ traverseDFS (documentRef documentName children span) ∧ selector.first.Matches ref := by
    intro ref
    rw [descendStep_root rfl, List.mem_filter]
    exact and_congr_right fun hmem => matchSimpleSelector_text selector.first hmem
  have hrun : run (searchSteps selector.front) (documentRef documentName children span) =
      (searchSteps ((selector.steps.takeWhile fun step => step.1.isDescendant).map Prod.snd)).foldl
        (fun found step => found.flatMap step)
        (descendStep selector.first.text (documentRef documentName children span)) := by
    rw [foldl_flatMap]
    rfl
  rw [hrun]
  exact mem_foldl_iff ⟨_, _, _, rfl⟩ (mem_takeWhile_descendant selector.steps) hfirst ref

theorem matches_eq_foldl_rest (root : Ref) (selector : Selector) : selector.Matches root =
    selector.rest.foldl (Extends root) ((selector.steps.takeWhile fun step => step.1.isDescendant).foldl
      (Extends root) selector.first.Matches) := by
  rw [← List.foldl_append, Selector.rest, List.takeWhile_append_dropWhile]
  rfl

theorem inner_searchSteps (root : Ref) (simples : List Simple) :
    ∀ step ∈ searchSteps simples, Inner Ref.path (· ∈ traverseDFS root) step := by
  intro step hstep
  obtain ⟨simple, -, rfl⟩ := List.mem_map.mp hstep
  exact inner_descendStep root simple.text

theorem inherits_searchSteps (root : Ref) (simples : List Simple) :
    ∀ step ∈ searchSteps simples, Inherits Ref.path (· ∈ traverseDFS root) step := by
  intro step hstep
  obtain ⟨simple, -, rfl⟩ := List.mem_map.mp hstep
  exact inherits_descendStep root simple.text

theorem getLast?_chain {root : Ref} {simple : Simple} {chain : List Ref}
    (hchain : Chain root (simple :: simples) chain) (place : Ref) :
    chain.getLast? = some (chain.getLastD place) := by
  obtain ⟨first, rest, -, -, rfl⟩ := List.forall₂_cons_left_iff.mp hchain.1
  rw [List.getLastD_cons, List.getLast?_cons, List.getLastD_eq_getLast?]

end Found

section Sound

variable {documentName : String} {children : List Node} {span : Span} {selector : Selector}

theorem sorted_query_descendants_iff (hrest : selector.rest = []) :
    Sorted Ref.path (run (searchSteps selector.front) (documentRef documentName children span)) ↔
      ∀ ref ∈ traverseDFS (documentRef documentName children span),
        selector.Matches (documentRef documentName children span) ref → ∀ chain other,
          Chain (documentRef documentName children span) selector.front chain →
          Chain (documentRef documentName children span) selector.front other →
          selector.Leads chain ref → selector.Leads other ref → chain = other := by
  have hinner := inner_searchSteps (documentRef documentName children span) selector.front
  have hinherits := inherits_searchSteps (documentRef documentName children span) selector.front
  have hroot := root_mem_traverseDFS (documentRef documentName children span)
  have hsorted : Sorted Ref.path (run (searchSteps selector.front) (documentRef documentName children span)) ↔
      (run (searchSteps selector.front) (documentRef documentName children span)).Nodup :=
    ⟨Sorted.nodup, sorted_run hinner hinherits hroot⟩
  rw [hsorted, nodup_run_iff hinner hroot]
  simp only [mem_routes_root_iff, Selector.Leads, if_pos hrest]
  constructor
  · intro honce ref _ _ chain other hchain hother hlast hlast'
    refine honce chain hchain other hother ?_
    rw [List.getLastD_eq_getLast?, List.getLastD_eq_getLast?, hlast, hlast']
  · intro honce route hroute other hother hsame
    have hlast : route.getLast? = some (route.getLastD (documentRef documentName children span)) :=
      getLast?_chain hroute _
    have hlast' : other.getLast? = some (route.getLastD (documentRef documentName children span)) :=
      hsame ▸ getLast?_chain hother _
    have hmem := (mem_run_front selector _).mp (mem_run_iff_chain.mpr ⟨route, hroute, hlast⟩)
    refine honce _ hmem.1 ?_ route other hroute hother hlast hlast'
    rw [matches_eq_foldl_rest, hrest]
    exact hmem.2

theorem query_iff_of_descendants (hrest : selector.rest = []) :
    Answers (documentRef documentName children span) selector
        (query (documentRef documentName children span) selector.text) ↔
      Sound (documentRef documentName children span) selector := by
  rw [query_descendants rfl hrest]
  have hexact : ∀ ref, ref ∈ run (searchSteps selector.front) (documentRef documentName children span) ↔
      ref ∈ traverseDFS (documentRef documentName children span) ∧
        selector.Matches (documentRef documentName children span) ref := by
    intro ref
    rw [mem_run_front, matches_eq_foldl_rest, hrest]
    rfl
  constructor
  · rintro ⟨-, hordered⟩
    refine ⟨fun hlength => ?_, (sorted_query_descendants_iff hrest).mp hordered, fun hne => absurd hrest hne⟩
    rw [hrest] at hlength
    simp at hlength
  · rintro ⟨-, honce, -⟩
    exact ⟨hexact, (sorted_query_descendants_iff hrest).mpr honce⟩

theorem mem_run_child (hrest : selector.rest ≠ []) (ref : Ref) :
    ref ∈ run (searchSteps selector.front ++ [childStep selector.restText])
        (documentRef documentName children span) ↔
      ref ∈ traverseDFS (documentRef documentName children span) ∧
        (∃ chain, Chain (documentRef documentName children span) selector.front chain ∧
          selector.Leads chain ref) ∧
        matchSimpleSelector ref selector.restText = true := by
  rw [mem_run_concat]
  simp only [Selector.Leads, if_neg hrest]
  constructor
  · rintro ⟨parent, hparent, hchild⟩
    obtain ⟨hmem, hparentOf, hmatch⟩ := (mem_childStep ((mem_run_front selector parent).mp hparent).1).mp hchild
    obtain ⟨chain, hchain, hlast⟩ := mem_run_iff_chain.mp hparent
    exact ⟨hmem, ⟨chain, hchain, parent, hlast, hparentOf⟩, hmatch⟩
  · rintro ⟨hmem, ⟨chain, hchain, parent, hlast, hparentOf⟩, hmatch⟩
    have hparent := mem_run_iff_chain.mpr ⟨chain, hchain, hlast⟩
    exact ⟨parent, hparent, (mem_childStep ((mem_run_front selector parent).mp hparent).1).mpr
      ⟨hmem, hparentOf, hmatch⟩⟩

theorem matches_of_single (hrest : selector.rest.length = 1) :
    ∀ ref ∈ traverseDFS (documentRef documentName children span),
      selector.Matches (documentRef documentName children span) ref ↔
        (∃ chain, Chain (documentRef documentName children span) selector.front chain ∧
          selector.Leads chain ref) ∧
        matchSimpleSelector ref selector.restText = true := by
  intro ref href
  obtain ⟨⟨combinator, next⟩, hsingle⟩ := List.length_eq_one_iff.mp hrest
  have hne : selector.rest ≠ [] := by
    rw [hsingle]
    simp
  have htext : selector.restText = next.text := by
    rw [Selector.restText, hsingle]
    exact List.append_nil _
  have hleads : (∃ chain, Chain (documentRef documentName children span) selector.front chain ∧
      selector.Leads chain ref) ↔
      ∃ parent ∈ run (searchSteps selector.front) (documentRef documentName children span),
        ParentOf parent ref := by
    simp only [Selector.Leads, if_neg hne]
    constructor
    · rintro ⟨chain, hchain, parent, hlast, hparentOf⟩
      exact ⟨parent, mem_run_iff_chain.mpr ⟨chain, hchain, hlast⟩, hparentOf⟩
    · rintro ⟨parent, hparent, hparentOf⟩
      obtain ⟨chain, hchain, hlast⟩ := mem_run_iff_chain.mp hparent
      exact ⟨chain, hchain, parent, hlast, hparentOf⟩
  rw [hleads, htext, matchSimpleSelector_text next href, matches_eq_foldl_rest, hsingle]
  cases combinator with
  | descendant gap hgap =>
      have hhead := List.head?_dropWhile_not (fun step : Combinator × Simple => step.1.isDescendant) selector.steps
      rw [← Selector.rest, hsingle] at hhead
      simp [Combinator.isDescendant] at hhead
  | child before after =>
      simp only [List.foldl_cons, List.foldl_nil, Extends, Combinator.Joins, mem_run_front]
      constructor
      · rintro ⟨hmatch, outer, hmem, hparentOf, hholds⟩
        exact ⟨⟨outer, ⟨hmem, hholds⟩, hparentOf⟩, hmatch⟩
      · rintro ⟨⟨outer, ⟨hmem, hholds⟩, hparentOf⟩, hmatch⟩
        exact ⟨hmatch, outer, hmem, hparentOf, hholds⟩

theorem parentOf_unique {root parent other child : Ref} (hparent : parent ∈ traverseDFS root)
    (hother : other ∈ traverseDFS root) (hfirst : ParentOf parent child) (hsecond : ParentOf other child) :
    parent = other := by
  obtain ⟨index, hindex⟩ := hfirst
  obtain ⟨index', hindex'⟩ := hsecond
  exact eq_of_path_eq hparent hother (List.append_inj_left' (hindex.symm.trans hindex') rfl)

/-- When the rest is matched as it should be, a query with a child combinator finds in order just when one chain
leads to everything and outer parents come first. -/
theorem sorted_query_child_iff (hrest : selector.rest ≠ [])
    (hwhole : ∀ ref ∈ traverseDFS (documentRef documentName children span),
      selector.Matches (documentRef documentName children span) ref ↔
        (∃ chain, Chain (documentRef documentName children span) selector.front chain ∧
          selector.Leads chain ref) ∧
        matchSimpleSelector ref selector.restText = true) :
    Sorted Ref.path (run (searchSteps selector.front ++ [childStep selector.restText])
        (documentRef documentName children span)) ↔
      Sound (documentRef documentName children span) selector := by
  have hinner := inner_searchSteps (documentRef documentName children span) selector.front
  have hinherits := inherits_searchSteps (documentRef documentName children span) selector.front
  have hchildStep := inner_childStep (documentRef documentName children span) selector.restText
  have hroot := root_mem_traverseDFS (documentRef documentName children span)
  rw [sorted_run_concat_iff hinner hinherits hchildStep hroot, nodup_run_concat_iff hinner hchildStep hroot]
  simp only [mem_routes_root_iff]
  have hmem : ∀ {place}, place ∈ run (searchSteps selector.front) (documentRef documentName children span) →
      place ∈ traverseDFS (documentRef documentName children span) :=
    fun hplace => ((mem_run_front selector _).mp hplace).1
  have hlast : ∀ {chain}, Chain (documentRef documentName children span) selector.front chain →
      chain.getLastD (documentRef documentName children span) ∈
        run (searchSteps selector.front) (documentRef documentName children span) :=
    fun hchain => mem_run_iff_chain.mpr ⟨_, hchain, getLast?_chain hchain _⟩
  have hleads : ∀ {chain ref}, Chain (documentRef documentName children span) selector.front chain →
      (selector.Leads chain ref ↔ ParentOf (chain.getLastD (documentRef documentName children span)) ref) := by
    intro chain ref hchain
    rw [Selector.Leads, if_neg hrest, getLast?_chain hchain (documentRef documentName children span)]
    simp
  -- A child of a place that was found is found just when it matches.
  have hfound : ∀ {place ref}, place ∈ run (searchSteps selector.front) (documentRef documentName children span) →
      (ref ∈ childStep selector.restText place ↔
        ref ∈ traverseDFS (documentRef documentName children span) ∧ ParentOf place ref ∧
          selector.Matches (documentRef documentName children span) ref) := by
    intro place ref hplace
    rw [mem_childStep (hmem hplace)]
    refine and_congr_right fun href => and_congr_right fun hparent => ?_
    obtain ⟨chain, hchain, hend⟩ := mem_run_iff_chain.mp hplace
    have hchainLeads : selector.Leads chain ref := by
      rw [Selector.Leads, if_neg hrest]
      exact ⟨place, hend, hparent⟩
    rw [hwhole ref href, and_iff_right ⟨chain, hchain, hchainLeads⟩]
  constructor
  · rintro ⟨honce, houter⟩
    refine ⟨fun _ => hwhole, ?_, fun _ => ?_⟩
    · intro ref href hmatch chain other hchain hother hend hend'
      rw [hleads hchain] at hend
      rw [hleads hother] at hend'
      exact honce chain hchain other hother ref ((hfound (hlast hchain)).mpr ⟨href, hend, hmatch⟩)
        ((hfound (hlast hother)).mpr ⟨href, hend', hmatch⟩)
    · intro outer houterMem inner hinnerMem first hfirst second hsecond hparent hparent' habove hmatch hmatch'
      have hplace : ∀ {parent ref}, parent ∈ traverseDFS (documentRef documentName children span) →
          ref ∈ traverseDFS (documentRef documentName children span) → ParentOf parent ref →
          selector.Matches (documentRef documentName children span) ref →
          parent ∈ run (searchSteps selector.front) (documentRef documentName children span) := by
        intro parent ref hparentMem href hparentOf hrefMatch
        obtain ⟨⟨chain, hchain, hend⟩, -⟩ := (hwhole ref href).mp hrefMatch
        rw [hleads hchain] at hend
        rw [parentOf_unique hparentMem (hmem (hlast hchain)) hparentOf hend]
        exact hlast hchain
      have houterRun := hplace houterMem hfirst hparent hmatch
      have hinnerRun := hplace hinnerMem hsecond hparent' hmatch'
      exact houter outer houterRun inner hinnerRun habove first ((hfound houterRun).mpr ⟨hfirst, hparent, hmatch⟩)
        second ((hfound hinnerRun).mpr ⟨hsecond, hparent', hmatch'⟩)
  · rintro ⟨-, honce, hinOrder⟩
    refine ⟨?_, ?_⟩
    · intro route hroute other hother found hmatch hmatch'
      obtain ⟨href, hparent, hholds⟩ := (hfound (hlast hroute)).mp hmatch
      obtain ⟨-, hparent', -⟩ := (hfound (hlast hother)).mp hmatch'
      exact honce found href hholds route other hroute hother ((hleads hroute).mpr hparent)
        ((hleads hother).mpr hparent')
    · intro outer houter inner hinnerRun habove first hfirst second hsecond
      obtain ⟨hfirstMem, hparent, hmatch⟩ := (hfound houter).mp hfirst
      obtain ⟨hsecondMem, hparent', hmatch'⟩ := (hfound hinnerRun).mp hsecond
      exact hinOrder hrest outer (hmem houter) inner (hmem hinnerRun) first hfirstMem second hsecondMem hparent
        hparent' habove hmatch hmatch'

/-- A query of a document finds the elements that the selector selects, each once and in order, just when it is
sound. -/
theorem query_answers_iff (documentName : String) (children : List Node) (span : Span) (selector : Selector) :
    Answers (documentRef documentName children span) selector
        (query (documentRef documentName children span) selector.text) ↔
      Sound (documentRef documentName children span) selector := by
  by_cases hrest : selector.rest = []
  · exact query_iff_of_descendants hrest
  rw [query_child rfl hrest]
  constructor
  · rintro ⟨hexact, hordered⟩
    refine (sorted_query_child_iff hrest fun ref href => ?_).mp hordered
    have hfound := hexact ref
    rw [mem_run_child hrest] at hfound
    simpa only [href, true_and] using hfound.symm
  · intro hsound
    have hwhole : ∀ ref ∈ traverseDFS (documentRef documentName children span),
        selector.Matches (documentRef documentName children span) ref ↔
          (∃ chain, Chain (documentRef documentName children span) selector.front chain ∧
            selector.Leads chain ref) ∧
          matchSimpleSelector ref selector.restText = true := by
      have hpos := List.length_pos_iff.mpr hrest
      by_cases hsingle : selector.rest.length = 1
      · exact matches_of_single hsingle
      · exact hsound.whole (by omega)
    refine ⟨fun ref => ?_, (sorted_query_child_iff hrest hwhole).mpr hsound⟩
    rw [mem_run_child hrest]
    exact and_congr_right fun href => (hwhole ref href).symm

def letterName (ch : Char) (hch : NameChar ch) : Name := ⟨[ch], List.cons_ne_nil _ _, by simpa using hch⟩

theorem nameChar_letters : NameChar 'a' ∧ NameChar 'b' := by
  simp only [NameChar]
  decide

/-- The selector `a b`. -/
def nestedSelector : Selector where
  leading := ⟨[], by simp⟩
  first := ⟨.tag (letterName 'a' nameChar_letters.1), false⟩
  steps := [(.descendant ⟨[' '], by simp [isSpace]⟩ (by simp), ⟨.tag (letterName 'b' nameChar_letters.2), false⟩)]
  trailing := ⟨[], by simp⟩

/-- The document `<a><a><b></b></a></a>`. -/
def nestedRoot : Ref :=
  let span : Span := ⟨"", 1, 1, 0⟩
  documentRef "html-document" [.element ['a'] [] [.element ['a'] [] [.element ['b'] [] [] span] span] span] span

/-- The inner element is found twice, below either of the outer ones. -/
theorem not_answers_nested : ¬Answers nestedRoot nestedSelector (query nestedRoot nestedSelector.text) := by
  rintro ⟨-, hordered⟩
  have hpaths : (query nestedRoot nestedSelector.text).map Ref.path = [[0, 0, 0], [0, 0, 0]] := by decide
  have hmap := List.pairwise_map.mpr hordered
  rw [hpaths] at hmap
  exact absurd hmap (by decide)

end Sound

end Jayess.Webparse
