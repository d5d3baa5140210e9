import Jayess.Lexer.Lexer
import Jayess.Text.Slices

/-! # Markup trees -/

namespace Jayess.Webparse

structure Span where
  file : String
  line : Nat
  column : Nat
  offset : Nat
  deriving DecidableEq

structure Diagnostic where
  message : String
  span : Span
  recoverable : Bool
  deriving DecidableEq

structure Attribute where
  name : List Char
  value : List Char
  boolean : Bool
  span : Span
  deriving DecidableEq

inductive LeafType where
  | text
  | comment
  | processing
  | cdata
  deriving DecidableEq

inductive Node where
  | document (name : String) (children : List Node) (span : Span)
  | element (name : List Char) (attributes : List Attribute) (children : List Node) (span : Span)
  | leaf (type : LeafType) (text : List Char) (span : Span)

structure Document where
  kind : String
  root : Node
  diagnostics : List Diagnostic

structure FormatOptions where
  pretty : Bool
  minify : Bool
  preserveComments : Bool

/-- The children of a node. -/
def Node.children : Node → List Node
  | .document _ children _ => children
  | .element _ _ children _ => children
  | .leaf _ _ _ => []

def trimSpace : List Char → List Char := Slices.trim isSpace

end Jayess.Webparse
