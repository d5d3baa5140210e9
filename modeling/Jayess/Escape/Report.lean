import Jayess.Bindings

/-! # The report of the escape analysis -/

namespace Jayess.Escape

/-- `escape.Report`, with the alias relation as its pairs, each in both directions. -/
structure Report where
  escaped : List String
  aliases : List (String × String)
deriving DecidableEq, Repr

/-- The order in which Go ranges over the aliases of a name, which may be another one each time: it may
depend on all that is marked so far. -/
structure AliasOrder where
  range : Report → List String → List String → List String
  perm : ∀ report seen keys, (range report seen keys).Perm keys

def AliasOrder.listed : AliasOrder := ⟨fun _ _ keys => keys, fun _ _ _ => .refl _⟩

namespace Report

def new : Report := ⟨[], []⟩

def escapes (report : Report) (name : String) : Bool := report.escaped.contains name

def eligibleForScopeCleanup (report : Report) (name : String) : Bool :=
  name ≠ "" && !report.escapes name

def mustSurviveScopeExit (report : Report) (name : String) : Bool :=
  name ≠ "" && report.escapes name

/-- `r.aliases[name]`. -/
def aliasesOf (report : Report) (name : String) : List String :=
  (report.aliases.filter fun pair => pair.1 = name).map Prod.snd

section Marking

variable (order : AliasOrder)

/-- A name and, along the aliases, every name that was not seen. A path of names that were not seen
holds each alias at most once, which bounds the rounds. -/
def markEscapingSeen : Nat → String → Report × List String → Report × List String
  | 0, _, state => state
  | rounds + 1, name, (report, seen) =>
      if name = "" ∨ name ∈ seen then (report, seen)
      else
        let state := ({ report with escaped := name :: report.escaped }, name :: seen)
        (order.range state.1 state.2 (report.aliasesOf name).dedup).foldl
          (fun state other => markEscapingSeen rounds other state) state

def markEscaping (report : Report) (name : String) : Report :=
  (markEscapingSeen order (report.aliases.length + 1) name (report, [])).1

def addAlias (report : Report) (first second : String) : Report :=
  if first = "" ∨ second = "" ∨ first = second then report
  else
    let report := { report with aliases := (first, second) :: (second, first) :: report.aliases }
    if report.escapes first ∨ report.escapes second then
      (report.markEscaping order first).markEscaping order second
    else report

end Marking

end Report

/-- `escape.scope`: the names of each scope, the innermost one first. -/
abbrev Scope := List (List String)

namespace Scope

def newScope (parent : Scope) : Scope := [] :: parent

def declare (scope : Scope) (name : String) : Scope :=
  if name = "" then scope
  else
    match scope with
    | [] => []
    | names :: parent => (name :: names) :: parent

/-- `declarePatternInScope`. -/
def declarePattern (scope : Scope) (pattern : Option BindingPattern) : Scope :=
  (patternNames pattern).foldl declare scope

/-- `declareParametersInScope`. -/
def declareParameters (scope : Scope) (params : List Parameter) : Scope :=
  params.foldl (fun scope ⟨_, pattern, _, _⟩ => scope.declarePattern pattern) scope

def hasLocal (scope : Scope) (name : String) : Bool := (scope.headD []).contains name

def hasOuter (scope : Scope) (name : String) : Bool :=
  scope.tail.any fun names => names.contains name

end Scope

end Jayess.Escape
