import Mathlib.Data.List.Dedup
import Jayess.Ast

/-! # The names of binding patterns -/

namespace Jayess

/-- The order in which Go ranges over a map with the given keys. -/
structure MapOrder where
  range : List String → List String
  perm : ∀ keys, (range keys).Perm keys

def MapOrder.insertion : MapOrder := ⟨id, fun _ => .refl _⟩

mutual

/-- The names a pattern binds, in source order: `exportBindingPatternNames`. -/
def patternNames : Option BindingPattern → List String
  | none => []
  | some pattern => collectBindingNames pattern

def collectBindingNames : BindingPattern → List String
  | .name name => if name = "" then [] else [name]
  | .default pattern _ => patternNames pattern
  | .rest pattern => patternNames pattern
  | .array elements => elementNames elements
  | .object properties => propertyNames properties

def elementNames : List (Option BindingPattern) → List String
  | [] => []
  | element :: rest => patternNames element ++ elementNames rest

def propertyNames : List ObjectBindingProperty → List String
  | [] => []
  | ⟨_, _, pattern, _, _⟩ :: rest => patternNames pattern ++ propertyNames rest

end

/-- `bindingNames`: the keys of a Go map, so each once and in an order of its own. -/
def bindingNames (mapOrder : MapOrder) (pattern : Option BindingPattern) : List String :=
  mapOrder.range (patternNames pattern).dedup

end Jayess
