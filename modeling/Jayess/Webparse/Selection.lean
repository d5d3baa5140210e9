import Jayess.Webparse.Traversal

/-!
# What selectors select
-/

namespace Jayess.Webparse

open TreeOrder

def NameChar (ch : Char) : Prop := isSpace ch = false ∧ ch ∉ ['>', ':', '.', '#', '[', ']']

structure Name where
  chars : List Char
  ne_nil : chars ≠ []
  valid : ∀ ch ∈ chars, NameChar ch

inductive Base where
  | tag (name : Name)
  | id (value : Name)
  | className (value : Name)
  | attr (name : Name)
  | tagClass (name value : Name)

/-- A simple selector, with the pseudo-class `:first-child` or without. -/
structure Simple where
  base : Base
  firstChild : Bool

structure Blank where
  chars : List Char
  blank : ∀ ch ∈ chars, isSpace ch = true

inductive Combinator where
  | descendant (gap : Blank) (ne : gap.chars ≠ [])
  | child (before after : Blank)

structure Selector where
  leading : Blank
  first : Simple
  steps : List (Combinator × Simple)
  trailing : Blank

def Base.text : Base → List Char
  | tag name => name.chars
  | id value => '#' :: value.chars
  | className value => '.' :: value.chars
  | attr name => '[' :: name.chars ++ [']']
  | tagClass name value => name.chars ++ '.' :: value.chars

def Simple.text (simple : Simple) : List Char :=
  simple.base.text ++ if simple.firstChild then ':' :: firstChildPseudo else []

def Combinator.text : Combinator → List Char
  | descendant gap _ => gap.chars
  | child before after => before.chars ++ '>' :: after.chars

def stepsText (steps : List (Combinator × Simple)) : List Char :=
  steps.flatMap fun step => step.1.text ++ step.2.text

def Selector.text (selector : Selector) : List Char :=
  selector.leading.chars ++ (selector.first.text ++ stepsText selector.steps) ++ selector.trailing.chars

def Base.Matches (name : List Char) (attributes : List Attribute) : Base → Prop
  | tag value => name = value.chars
  | id value => ∃ attr ∈ attributes, attr.name = idAttribute ∧ attr.value = value.chars
  | className value => ∃ attr ∈ attributes, attr.name = classAttribute ∧ value.chars ∈ fields attr.value
  | attr value => ∃ attr ∈ attributes, attr.name = value.chars
  | tagClass value other =>
      name = value.chars ∧ ∃ attr ∈ attributes, attr.name = classAttribute ∧ other.chars ∈ fields attr.value

def FirstChild (ref : Ref) : Prop :=
  ∃ parent index, ref.parent = some parent ∧ ref.path.getLast? = some index ∧
    ∀ sibling ∈ parent.children.take index, isElement sibling = false

def Simple.Matches (simple : Simple) (ref : Ref) : Prop :=
  ∃ name attributes children span, ref.node = .element name attributes children span ∧
    simple.base.Matches name attributes ∧ (simple.firstChild = true → FirstChild ref)

def Combinator.Joins : Combinator → Ref → Ref → Prop
  | descendant _ _, outer, inner => Above outer.path inner.path
  | child _ _, outer, inner => ParentOf outer inner

def Extends (root : Ref) (holds : Ref → Prop) (step : Combinator × Simple) (ref : Ref) : Prop :=
  step.2.Matches ref ∧ ∃ outer ∈ traverseDFS root, step.1.Joins outer ref ∧ holds outer

def Selector.Matches (root : Ref) (selector : Selector) : Ref → Prop :=
  selector.steps.foldl (Extends root) selector.first.Matches

/-- A list of the places of a tree that match a selector: each once, in the order of the tree. -/
structure Answers (root : Ref) (selector : Selector) (found : List Ref) : Prop where
  exact : ∀ ref, ref ∈ found ↔ ref ∈ traverseDFS root ∧ selector.Matches root ref
  ordered : Sorted Ref.path found

/-- The root of a document. -/
def documentRef (name : String) (children : List Node) (span : Span) : Ref :=
  ⟨[], none, .document name children span⟩

def Combinator.isDescendant : Combinator → Bool
  | descendant _ _ => true
  | child _ _ => false

def Selector.front (selector : Selector) : List Simple :=
  selector.first :: (selector.steps.takeWhile fun step => step.1.isDescendant).map Prod.snd

/-- The steps from the first child combinator on. -/
def Selector.rest (selector : Selector) : List (Combinator × Simple) :=
  selector.steps.dropWhile fun step => step.1.isDescendant

def Selector.restText (selector : Selector) : List Char :=
  (selector.rest.head?.map fun step => step.2.text).getD [] ++ stepsText selector.rest.tail

def Chain (root : Ref) (simples : List Simple) (chain : List Ref) : Prop :=
  List.Forall₂ (fun simple ref => ref ∈ traverseDFS root ∧ simple.Matches ref) simples chain ∧
    chain.IsChain fun outer inner => Above outer.path inner.path

def Selector.Leads (selector : Selector) (chain : List Ref) (ref : Ref) : Prop :=
  if selector.rest = [] then chain.getLast? = some ref
  else ∃ parent, chain.getLast? = some parent ∧ ParentOf parent ref

/-- One chain leads to each element that matches. After a child combinator, the elements below outer parents
come before those below inner ones, and when more follows it, the elements that match are those whose tag,
attribute or class is the whole rest of the text. -/
structure Sound (root : Ref) (selector : Selector) : Prop where
  whole : 1 < selector.rest.length → ∀ ref ∈ traverseDFS root, selector.Matches root ref ↔
    (∃ chain, Chain root selector.front chain ∧ selector.Leads chain ref) ∧
      matchSimpleSelector ref selector.restText = true
  once : ∀ ref ∈ traverseDFS root, selector.Matches root ref → ∀ chain other, Chain root selector.front chain →
    Chain root selector.front other → selector.Leads chain ref → selector.Leads other ref → chain = other
  inOrder : selector.rest ≠ [] → ∀ outer ∈ traverseDFS root, ∀ inner ∈ traverseDFS root,
    ∀ first ∈ traverseDFS root, ∀ second ∈ traverseDFS root, ParentOf outer first → ParentOf inner second →
    Above outer.path inner.path → selector.Matches root first → selector.Matches root second →
    first.path < second.path

end Jayess.Webparse
