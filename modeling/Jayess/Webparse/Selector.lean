import Jayess.Webparse.Document

/-! # Selectors -/

namespace Jayess.Webparse

structure Ref where
  path : List Nat
  parent : Option Node
  node : Node

/-- The children of a node at their places. -/
def Ref.children (ref : Ref) : List Ref :=
  ref.node.children.mapIdx fun index child => ⟨ref.path ++ [index], some ref.node, child⟩

mutual

/-- A node and everything below it, in the order of a walk. -/
def traverseNode (path : List Nat) (parent : Option Node) : Node → List Ref
  | .document name children span =>
      ⟨path, parent, .document name children span⟩ :: traverseNodes path (.document name children span) 0 children
  | .element name attributes children span =>
      ⟨path, parent, .element name attributes children span⟩ ::
        traverseNodes path (.element name attributes children span) 0 children
  | .leaf type text span => [⟨path, parent, .leaf type text span⟩]

def traverseNodes (path : List Nat) (parent : Node) (index : Nat) : List Node → List Ref
  | [] => []
  | child :: children =>
      traverseNode (path ++ [index]) (some parent) child ++ traverseNodes path parent (index + 1) children

end

def traverseDFS (root : Ref) : List Ref := traverseNode root.path root.parent root.node

/-- `strings.Cut` at a character. -/
def cut (separator : Char) (text : List Char) : Option (List Char × List Char) :=
  if separator ∈ text then
    some (text.takeWhile (· ≠ separator), (text.dropWhile (· ≠ separator)).drop 1)
  else none

def fields (text : List Char) : List (List Char) := (text.splitOnP isSpace).filter (· ≠ [])

def idAttribute : List Char := ['i', 'd']

def classAttribute : List Char := ['c', 'l', 'a', 's', 's']

def firstChildPseudo : List Char := ['f', 'i', 'r', 's', 't', '-', 'c', 'h', 'i', 'l', 'd']

def attrEquals (attributes : List Attribute) (name value : List Char) : Bool :=
  attributes.any fun attr => attr.name = name && attr.value = value

def hasAttr (attributes : List Attribute) (name : List Char) : Bool :=
  attributes.any fun attr => attr.name = name

def hasClass (attributes : List Attribute) (value : List Char) : Bool :=
  attributes.any fun attr => attr.name = classAttribute && value ∈ fields attr.value

def matchesPseudo (ref : Ref) (pseudo : List Char) : Bool :=
  if pseudo = [] then true
  else if pseudo ≠ firstChildPseudo then false
  else
    match ref.parent with
    | none => false
    | some parent =>
        match parent.children.findIdx? isElement with
        | some index => ref.path.getLast? = some index
        | none => false

/-- The part of a simple selector before a pseudo-class. -/
def matchesBase (name : List Char) (attributes : List Attribute) (selector : List Char) : Bool :=
  if selector.head? = some '#' then attrEquals attributes idAttribute (selector.drop 1)
  else if selector.head? = some '.' then hasClass attributes (selector.drop 1)
  else if selector.head? = some '[' ∧ selector.getLast? = some ']' then
    hasAttr attributes (selector.drop 1).dropLast
  else
    match cut '.' selector with
    | some (tag, value) => name = tag && hasClass attributes value
    | none => name = selector

def matchSimpleSelector (ref : Ref) (selector : List Char) : Bool :=
  match ref.node with
  | .element name attributes _ _ =>
      let (base, pseudo) := (cut ':' selector).getD (selector, [])
      matchesBase name attributes base && matchesPseudo ref pseudo
  | _ => false

section Queries

variable (query : Ref → List Char → List Ref)

def queryDescendant (root : Ref) (parts : List (List Char)) : List Ref :=
  parts.foldl (fun current part => current.flatMap fun node =>
    (query node part).filter fun child => child.path ≠ node.path) [root]

def queryChild (root : Ref) (parentSelector childSelector : List Char) : List Ref :=
  (query root parentSelector).flatMap fun parent =>
    parent.children.filter fun child => matchSimpleSelector child childSelector

end Queries

/-- The selectors of inner queries are shorter than that of the outer one. -/
def queryRounds : Nat → Ref → List Char → List Ref
  | 0, _, _ => []
  | rounds + 1, root, selector =>
      let selector := trimSpace selector
      if selector = [] then []
      else
        match cut '>' selector with
        | some (left, right) => queryChild (queryRounds rounds) root (trimSpace left) (trimSpace right)
        | none =>
            if 1 < (fields selector).length then queryDescendant (queryRounds rounds) root (fields selector)
            else (traverseDFS root).filter (matchSimpleSelector · selector)

def query (root : Ref) (selector : List Char) : List Ref := queryRounds (selector.length + 1) root selector

end Jayess.Webparse
