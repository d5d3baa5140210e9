import Jayess.Webparse.Token

/-! # Markup documents -/

namespace Jayess.Webparse

/-! ## Open elements -/

structure OpenElement where
  name : List Char
  attributes : List Attribute
  children : List Node
  span : Span

def OpenElement.node (element : OpenElement) : Node :=
  .element element.name element.attributes element.children element.span

structure Tree where
  stack : List OpenElement
  children : List Node

namespace Tree

def empty : Tree := ⟨[], []⟩

/-- `AppendChild` to the top of the stack. -/
def appendChild (tree : Tree) (child : Node) : Tree :=
  match tree.stack with
  | [] => { tree with children := tree.children ++ [child] }
  | top :: below => { tree with stack := { top with children := top.children ++ [child] } :: below }

def push (tree : Tree) (element : OpenElement) : Tree :=
  { tree with stack := element :: tree.stack }

def pop (tree : Tree) : Tree :=
  match tree.stack with
  | [] => tree
  | top :: below => ({ tree with stack := below }).appendChild top.node

def popMany (tree : Tree) : Nat → Tree
  | 0 => tree
  | count + 1 => tree.pop.popMany count

/-- The children of the root, all elements left. -/
def close (tree : Tree) : List Node := (tree.popMany tree.stack.length).children

end Tree

def htmlVoids : List (List Char) :=
  [['a', 'r', 'e', 'a'], ['b', 'a', 's', 'e'], ['b', 'r'], ['c', 'o', 'l'],
    ['e', 'm', 'b', 'e', 'd'], ['h', 'r'], ['i', 'm', 'g'], ['i', 'n', 'p', 'u', 't'],
    ['l', 'i', 'n', 'k'], ['m', 'e', 't', 'a'], ['p', 'a', 'r', 'a', 'm'],
    ['s', 'o', 'u', 'r', 'c', 'e'], ['t', 'r', 'a', 'c', 'k'], ['w', 'b', 'r']]

def isHTMLVoid (name : List Char) : Bool := htmlVoids.contains name

/-- A round of the loop over the tokens. -/
def stepHTML (tree : Tree) (token : Token) : Tree × List Diagnostic :=
  match token.mark with
  | .start name attrs selfClosed =>
      let opened := tree.push ⟨name, attrs, [], token.span⟩
      (if selfClosed ∨ isHTMLVoid name then opened.pop else opened, [])
  | .stop name =>
      match tree.stack.findIdx? (fun element => element.name = name) with
      | none =>
          (tree, [⟨"unmatched closing tag " ++ String.ofList name, token.span, true⟩])
      | some found =>
          (tree.popMany (found + 1),
            if found ≠ 0 then
              [⟨"html elements closed out of order before " ++ String.ofList name, token.span,
                true⟩]
            else [])
  | .text raw => (if raw.isEmpty then tree else tree.appendChild (.leaf .text raw token.span), [])
  | .comment raw => (tree.appendChild (.leaf .comment raw token.span), [])
  | .processing _ => (tree, [])
  | .cdata _ => (tree, [])

def stepXML (tree : Tree) (token : Token) : Tree × List Diagnostic :=
  match token.mark with
  | .start name attrs selfClosed =>
      let opened := tree.push ⟨name, attrs, [], token.span⟩
      (if selfClosed then opened.pop else opened, [])
  | .stop name =>
      match tree.stack with
      | [] => (tree, [⟨"mismatched xml closing tag " ++ String.ofList name, token.span, false⟩])
      | top :: _ =>
          if top.name ≠ name then
            (tree, [⟨"mismatched xml closing tag " ++ String.ofList name, token.span, false⟩])
          else (tree.pop, [])
  | .text raw => (if raw.isEmpty then tree else tree.appendChild (.leaf .text raw token.span), [])
  | .comment raw => (tree.appendChild (.leaf .comment raw token.span), [])
  | .processing raw => (tree.appendChild (.leaf .processing raw token.span), [])
  | .cdata raw => (tree.appendChild (.leaf .cdata raw token.span), [])

/-- The loop over the tokens. -/
def parseTokens (step : Tree → Token → Tree × List Diagnostic) (tree : Tree) :
    List Token → Tree × List Diagnostic
  | [] => (tree, [])
  | token :: tokens =>
      let (stepped, diagnostics) := step tree token
      let (tree, more) := parseTokens step stepped tokens
      (tree, diagnostics ++ more)

def parseHTML (input : List Char) (file : String) (fragment : Bool) : Option Document := do
  let (tokens, diagnostics) ← tokenizeMarkup input file false
  let (tree, complaints) := parseTokens stepHTML Tree.empty tokens
  let unclosed := tree.stack.head?.toList.map fun top =>
    (⟨"unclosed html elements", top.span, true⟩ : Diagnostic)
  let name := if fragment then "html-fragment" else "html-document"
  return ⟨"html", .document name tree.close ⟨file, 1, 1, 0⟩,
    diagnostics ++ complaints ++ unclosed⟩

def parseHTMLFragment (input : List Char) : Option Document := parseHTML input "" true

def isElement : Node → Bool
  | .element _ _ _ _ => true
  | _ => false

def parseXMLDocument (input : List Char) : Option Document := do
  let (tokens, diagnostics) ← tokenizeMarkup input "" true
  let (tree, complaints) := parseTokens stepXML Tree.empty tokens
  let unclosed := tree.stack.head?.toList.map fun top =>
    (⟨"unclosed xml element " ++ String.ofList top.name, top.span, false⟩ : Diagnostic)
  let span : Span := ⟨"", 1, 1, 0⟩
  let roots := if (tree.close.filter isElement).length ≠ 1 then
      [⟨"xml document must contain exactly one root element", span, false⟩]
    else []
  return ⟨"xml", .document "xml-document" tree.close span,
    diagnostics ++ complaints ++ unclosed ++ roots⟩

def serializeAttribute (xml : Bool) (attr : Attribute) : List Char :=
  [' '] ++ attr.name ++ if !attr.boolean || xml then ['=', '"'] ++ attr.value ++ ['"'] else []

def serializeLeaf (type : LeafType) (text : List Char) : List Char :=
  match type with
  | .text => text
  | .comment => commentOpening ++ text ++ commentClosing
  | .processing => processingOpening ++ text ++ processingClosing
  | .cdata => cdataOpening ++ text ++ cdataClosing

mutual

def serializeNode (xml : Bool) : Node → List Char
  | .document _ children _ => serializeNodes xml children
  | .leaf type text _ => serializeLeaf type text
  | .element name attributes children _ =>
      let opening := ['<'] ++ name ++ attributes.flatMap (serializeAttribute xml)
      if children.isEmpty && xml then opening ++ ['/', '>']
      else opening ++ ['>'] ++ serializeNodes xml children ++ ['<', '/'] ++ name ++ ['>']

def serializeNodes (xml : Bool) : List Node → List Char
  | [] => []
  | child :: children => serializeNode xml child ++ serializeNodes xml children

end

def serializeHTML (node : Node) : List Char := serializeNode false node

def serializeXML (node : Node) : List Char := serializeNode true node

end Jayess.Webparse
