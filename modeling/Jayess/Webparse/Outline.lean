import Jayess.Webparse.Document

/-!
# Outlines of markup trees

A tree without its spans and with texts that stand side by side as one, and the parsers' stack
discipline on such trees.
-/

namespace Jayess.Webparse

inductive Outline where
  | document (children : List Outline)
  | element (name : List Char) (attributes : List (List Char × List Char))
      (children : List Outline)
  | leaf (type : LeafType) (text : List Char)

namespace Outline

def add (children : List Outline) (child : Outline) : List Outline :=
  match child, children with
  | .leaf .text text, .leaf .text before :: earlier => .leaf .text (before ++ text) :: earlier
  | child, children => child :: children

theorem add_text_append (children : List Outline) (first second : List Char) :
    add (add children (.leaf .text first)) (.leaf .text second) =
      add children (.leaf .text (first ++ second)) := by
  cases children with
  | nil => rfl
  | cons child children =>
      cases child with
      | leaf type text =>
          cases type with
          | text => simp [add]
          | comment => rfl
          | processing => rfl
          | cdata => rfl
      | document _ => rfl
      | element _ _ _ => rfl

end Outline

def Attribute.binding (attr : Attribute) : List Char × List Char := (attr.name, attr.value)

mutual

def Node.outline : Node → Outline
  | .document _ children _ => .document (outlines [] children)
  | .element name attributes children _ =>
      .element name (attributes.map Attribute.binding) (outlines [] children)
  | .leaf type text _ => .leaf type text

def outlines (before : List Outline) : List Node → List Outline
  | [] => before
  | child :: children => outlines (Outline.add before child.outline) children

end

theorem outlines_append (before : List Outline) (first second : List Node) :
    outlines before (first ++ second) = outlines (outlines before first) second := by
  induction first generalizing before with
  | nil => rfl
  | cons child children ih =>
      rw [List.cons_append, outlines, outlines]
      apply ih

theorem outlines_concat (before : List Outline) (children : List Node) (child : Node) :
    outlines before (children ++ [child]) = Outline.add (outlines before children) child.outline := by
  rw [outlines_append, outlines, outlines]

inductive Event where
  | leaf (type : LeafType) (text : List Char)
  | start (name : List Char) (attributes : List (List Char × List Char)) (selfClosed : Bool)
  | stop (name : List Char)

def Mark.event : Mark → Event
  | .text raw => .leaf .text raw
  | .start name attrs selfClosed => .start name (attrs.map Attribute.binding) selfClosed
  | .stop name => .stop name
  | .comment raw => .leaf .comment raw
  | .processing raw => .leaf .processing raw
  | .cdata raw => .leaf .cdata raw

structure OpenOutline where
  name : List Char
  attributes : List (List Char × List Char)
  children : List Outline

def OpenOutline.outline (element : OpenOutline) : Outline :=
  .element element.name element.attributes element.children

structure Forest where
  stack : List OpenOutline
  children : List Outline

namespace Forest

def empty : Forest := ⟨[], []⟩

def add (forest : Forest) (child : Outline) : Forest :=
  match forest.stack with
  | [] => { forest with children := Outline.add forest.children child }
  | top :: below =>
      { forest with stack := { top with children := Outline.add top.children child } :: below }

def push (forest : Forest) (element : OpenOutline) : Forest :=
  { forest with stack := element :: forest.stack }

def pop (forest : Forest) : Forest :=
  match forest.stack with
  | [] => forest
  | top :: below => ({ forest with stack := below }).add top.outline

def popMany (forest : Forest) : Nat → Forest
  | 0 => forest
  | count + 1 => forest.pop.popMany count

def close (forest : Forest) : List Outline := (forest.popMany forest.stack.length).children

/-- How many elements an end tag closes: in XML the innermost if it has the name, in HTML up to the
innermost that has it. -/
def closed (xml : Bool) (forest : Forest) (name : List Char) : Nat :=
  let found := forest.stack.findIdx? fun element => element.name = name
  if xml then (if found = some 0 then 1 else 0) else (found.map (· + 1)).getD 0

def keeps (xml : Bool) (type : LeafType) : Bool := xml || type = .text || type = .comment

def step (xml : Bool) (forest : Forest) : Event → Forest
  | .leaf type text =>
      if type = .text ∧ text = [] ∨ keeps xml type = false then forest
      else forest.add (.leaf type text)
  | .start name attributes selfClosed =>
      let opened := forest.push ⟨name, attributes, []⟩
      if selfClosed ∨ xml = false ∧ isHTMLVoid name then opened.pop else opened
  | .stop name => forest.popMany (forest.closed xml name)

def run (xml : Bool) (forest : Forest) (events : List Event) : Forest :=
  events.foldl (step xml) forest

theorem run_append (xml : Bool) (forest : Forest) (first second : List Event) :
    forest.run xml (first ++ second) = (forest.run xml first).run xml second := by
  apply List.foldl_append

theorem add_text_append (forest : Forest) (first second : List Char) :
    (forest.add (.leaf .text first)).add (.leaf .text second) =
      forest.add (.leaf .text (first ++ second)) := by
  obtain ⟨stack, children⟩ := forest
  cases stack with
  | nil => simp [add, Outline.add_text_append]
  | cons top below => simp [add, Outline.add_text_append]

theorem step_text_append (xml : Bool) (forest : Forest) (first second : List Char) :
    (forest.step xml (.leaf .text first)).step xml (.leaf .text second) =
      forest.step xml (.leaf .text (first ++ second)) := by
  have hkeeps : keeps xml .text = true := by cases xml <;> rfl
  by_cases hfirst : first = []
  · subst hfirst
    simp [step]
  · by_cases hsecond : second = []
    · subst hsecond
      simp [step]
    · simp [step, hfirst, hsecond, hkeeps, add_text_append]

theorem pop_push (forest : Forest) (element : OpenOutline) :
    (forest.push element).pop = forest.add element.outline := rfl

end Forest

abbrev Label := List Char × List (List Char × List Char)

def Event.label? : Event → Option Label
  | .start name attributes _ => some (name, attributes)
  | _ => none

mutual

def Outline.elements : Outline → List Label
  | .document children => elementsOf children
  | .element name attributes children => (name, attributes) :: elementsOf children
  | .leaf _ _ => []

def elementsOf : List Outline → List Label
  | [] => []
  | last :: earlier => elementsOf earlier ++ last.elements

end

theorem elementsOf_add (children : List Outline) (child : Outline) :
    elementsOf (Outline.add children child) = elementsOf children ++ child.elements := by
  rw [Outline.add.eq_def]
  split
  · simp [elementsOf, Outline.elements]
  · rfl

namespace Forest

def elementsOn : List OpenOutline → List Label
  | [] => []
  | top :: below => elementsOn below ++ (top.name, top.attributes) :: elementsOf top.children

def elements (forest : Forest) : List Label :=
  elementsOf forest.children ++ elementsOn forest.stack

theorem elements_add (forest : Forest) (child : Outline) :
    (forest.add child).elements = forest.elements ++ child.elements := by
  obtain ⟨stack, children⟩ := forest
  cases stack with
  | nil => simp [add, elements, elementsOn, elementsOf_add]
  | cons top below => simp [add, elements, elementsOn, elementsOf_add]

theorem elements_pop (forest : Forest) : forest.pop.elements = forest.elements := by
  obtain ⟨stack, children⟩ := forest
  cases stack with
  | nil => rfl
  | cons top below =>
      rw [pop, elements_add]
      simp [elements, elementsOn, OpenOutline.outline, Outline.elements]

theorem elements_popMany (forest : Forest) (count : Nat) :
    (forest.popMany count).elements = forest.elements := by
  induction count generalizing forest with
  | zero => rfl
  | succ count ih => rw [popMany, ih, elements_pop]

theorem elements_step (xml : Bool) (forest : Forest) (event : Event) :
    (forest.step xml event).elements = forest.elements ++ event.label?.toList := by
  cases event with
  | leaf type text =>
      rw [step]
      split_ifs
      · simp [Event.label?]
      · rw [elements_add]
        rfl
  | start name attributes selfClosed =>
      have hpush : (forest.push ⟨name, attributes, []⟩).elements =
          forest.elements ++ [(name, attributes)] := by
        simp [push, elements, elementsOn, elementsOf]
      simp only [step]
      split_ifs
      · rw [elements_pop, hpush]
        rfl
      · exact hpush
  | stop name =>
      rw [step, elements_popMany]
      simp [Event.label?]

theorem elements_run (xml : Bool) (forest : Forest) (events : List Event) :
    (forest.run xml events).elements = forest.elements ++ events.filterMap Event.label? := by
  induction events generalizing forest with
  | nil => simp [run]
  | cons event events ih =>
      have hstep := ih (forest.step xml event)
      rw [run, List.foldl_cons, ← run, hstep, elements_step, List.append_assoc]
      cases hlabel : event.label? with
      | none => simp [hlabel]
      | some label => simp [hlabel]

theorem stack_pop (forest : Forest) : forest.pop.stack.length = forest.stack.length - 1 := by
  obtain ⟨stack, children⟩ := forest
  cases stack with
  | nil => rfl
  | cons top below => cases below <;> rfl

theorem stack_popMany (forest : Forest) (count : Nat) :
    (forest.popMany count).stack.length = forest.stack.length - count := by
  induction count generalizing forest with
  | zero => rfl
  | succ count ih =>
      rw [popMany, ih, stack_pop]
      omega

theorem elementsOf_close (forest : Forest) : elementsOf forest.close = forest.elements := by
  have hstack : (forest.popMany forest.stack.length).stack = [] := by
    apply List.eq_nil_of_length_eq_zero
    rw [stack_popMany, Nat.sub_self]
  rw [← elements_popMany forest forest.stack.length, elements, hstack, close, elementsOn,
    List.append_nil]

end Forest

def OpenElement.bare (element : OpenElement) : OpenOutline :=
  ⟨element.name, element.attributes.map Attribute.binding, outlines [] element.children⟩

namespace Tree

def forest (tree : Tree) : Forest :=
  ⟨tree.stack.map OpenElement.bare, outlines [] tree.children⟩

theorem forest_appendChild (tree : Tree) (child : Node) :
    (tree.appendChild child).forest = tree.forest.add child.outline := by
  obtain ⟨stack, children⟩ := tree
  cases stack with
  | nil => simp [appendChild, forest, Forest.add, outlines_concat]
  | cons top below =>
      simp [appendChild, forest, Forest.add, OpenElement.bare, outlines_concat]

theorem forest_push (tree : Tree) (element : OpenElement) :
    (tree.push element).forest = tree.forest.push element.bare := rfl

theorem forest_pop (tree : Tree) : tree.pop.forest = tree.forest.pop := by
  obtain ⟨stack, children⟩ := tree
  cases stack with
  | nil => rfl
  | cons top below =>
      rw [pop, forest_appendChild]
      rfl

theorem forest_popMany (tree : Tree) (count : Nat) :
    (tree.popMany count).forest = tree.forest.popMany count := by
  induction count generalizing tree with
  | zero => rfl
  | succ count ih => rw [popMany, Forest.popMany, ih, forest_pop]

theorem outlines_close (tree : Tree) : outlines [] tree.close = tree.forest.close := by
  have hlength : tree.forest.stack.length = tree.stack.length := List.length_map _
  rw [Forest.close, hlength, ← forest_popMany]
  rfl

theorem findIdx_forest (tree : Tree) (name : List Char) :
    tree.forest.stack.findIdx? (fun element => element.name = name) =
      tree.stack.findIdx? fun element => element.name = name := by
  rw [forest, List.findIdx?_map]
  rfl

end Tree

theorem outline_stepHTML (tree : Tree) (token : Token) :
    (stepHTML tree token).1.forest = tree.forest.step false token.mark.event := by
  obtain ⟨mark, span⟩ := token
  cases mark with
  | text raw =>
      cases raw with
      | nil => rfl
      | cons ch raw => exact Tree.forest_appendChild tree _
  | comment raw => exact Tree.forest_appendChild tree _
  | processing raw => rfl
  | cdata raw => rfl
  | start name attrs selfClosed =>
      by_cases hclosed : selfClosed ∨ isHTMLVoid name
      · simp only [stepHTML, Mark.event, Forest.step, hclosed, if_true, true_and]
        rw [Tree.forest_pop]
        rfl
      · simp only [stepHTML, Mark.event, Forest.step, hclosed, if_false, true_and]
        rfl
  | stop name =>
      simp only [stepHTML, Mark.event, Forest.step, Forest.closed, Tree.findIdx_forest]
      cases hfound : tree.stack.findIdx? fun element => element.name = name with
      | none => rfl
      | some found => exact Tree.forest_popMany tree (found + 1)

theorem outline_stepXML (tree : Tree) (token : Token) :
    (stepXML tree token).1.forest = tree.forest.step true token.mark.event := by
  obtain ⟨mark, span⟩ := token
  cases mark with
  | text raw =>
      cases raw with
      | nil => rfl
      | cons ch raw => exact Tree.forest_appendChild tree _
  | comment raw => exact Tree.forest_appendChild tree _
  | processing raw => exact Tree.forest_appendChild tree _
  | cdata raw => exact Tree.forest_appendChild tree _
  | start name attrs selfClosed =>
      cases selfClosed with
      | true =>
          simp only [stepXML, Mark.event, Forest.step, if_true, true_or]
          rw [Tree.forest_pop]
          rfl
      | false => simp [stepXML, Mark.event, Forest.step, Tree.forest_push, OpenElement.bare, outlines]
  | stop name =>
      obtain ⟨stack, children⟩ := tree
      simp only [stepXML, Mark.event, Forest.step, Forest.closed, Tree.findIdx_forest]
      cases stack with
      | nil => rfl
      | cons top below =>
          by_cases hname : top.name = name
          · simp only [hname, ne_eq, not_true_eq_false, if_false, List.findIdx?_cons,
              decide_true, if_true]
            exact Tree.forest_pop _
          · simp [hname, List.findIdx?_cons, Forest.popMany]

theorem forest_parseTokens {step : Tree → Token → Tree × List Diagnostic} {xml : Bool}
    (hstep : ∀ tree token, (step tree token).1.forest = tree.forest.step xml token.mark.event)
    (tree : Tree) (tokens : List Token) :
    (parseTokens step tree tokens).1.forest =
      tree.forest.run xml (tokens.map fun token => token.mark.event) := by
  induction tokens generalizing tree with
  | nil => rfl
  | cons token tokens ih =>
      rw [parseTokens, List.map_cons, Forest.run, List.foldl_cons, ← hstep]
      apply ih

end Jayess.Webparse
