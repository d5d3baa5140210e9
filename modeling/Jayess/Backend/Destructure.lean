import Jayess.Backend.Machine
import Jayess.Backend.StatementSpec
import Jayess.Destructure.Pattern

/-!
# Destructuring declarations
-/

namespace Jayess.Backend

open Destructure (Pattern Extraction Semantics Outcome)

inductive Source where
  | expression (value : Expression)
  | key (text : String)

def Source.emit : Source → ExprM Operand
  | expression value => emitExpression value
  | key text => emitRuntimeString text

def slotNames : Set Name := { name | ∃ index, name = .slot index }

/-- Emitted code of an expression of a pattern. -/
structure Initial where
  source : Source
  fragment : Fragment
  value : Operand
  counters : Counters
  final : Counters
  numbered : Numbered counters fragment final
  closed : fragment.Closed slotNames
  valueIn : value.In (slotNames ∪ fragment.exports)
  emitted : ∃ emitter emitted, source.emit emitter = .ok (value, emitted) ∧
    emitted.body = emitter.body ++ fragment.lines

def keySource (key : String) : Option Expression → Bool → Source
  | some keyExpr, true => .expression keyExpr
  | _, _ => .key key

mutual

/-- A binding pattern of the source, with its parts one after the other. -/
def patternTree : Option BindingPattern → Pattern Source
  | none => .done
  | some pattern => bindingTree pattern

def bindingTree : BindingPattern → Pattern Source
  | .name name => .name name
  | .default pattern value => .default (.expression value) (patternTree pattern)
  | .rest pattern => patternTree pattern
  | .array elements => elementsTree elements 0
  | .object properties => propertiesTree properties

def elementsTree : List (Option BindingPattern) → Nat → Pattern Source
  | [], _ => .done
  | none :: rest, index => elementsTree rest (index + 1)
  | some (.rest pattern) :: rest, index =>
      .elements index (patternTree pattern) (elementsTree rest (index + 1))
  | some element :: rest, index =>
      .element index (bindingTree element) (elementsTree rest (index + 1))

def propertiesTree : List ObjectBindingProperty → Pattern Source
  | [] => .done
  | ⟨key, keyExpr, pattern, computed, isRest⟩ :: others =>
      if isRest then .others (patternTree pattern) (propertiesTree others)
      else .property (keySource key keyExpr computed) (patternTree pattern) (propertiesTree others)

end

inductive Script where
  | lines (fragment : Fragment)
  | default (initial : Initial)
  | rest (result : Nat) (source : Operand)
  | seq (first second : Script)

def runtimeLine (result : Nat) (symbol : String) (args : List RuntimeCallArg) : Line :=
  .call result runtimeValueIRType symbol args

namespace Script

/-- A call of the runtime for a value. -/
def call (result : Nat) (symbol : String) (args : List RuntimeCallArg) : Script :=
  lines (.plain (runtimeLine result symbol args))

def fragment : Script → Fragment
  | lines fragment => fragment
  | default initial => initial.fragment
  | rest result source =>
      .plain (runtimeLine result "jayess_destructure_object_rest" [valueArg source])
  | seq first second => .seq first.fragment second.fragment

variable {Value World : Type} (runtime : Runtime Value World)

/-- The defaults that are evaluated when the code runs and the values the object rests get. -/
def events : Script → Machine Value World → List (Destructure.Event Initial Value)
  | lines _, _ => []
  | default initial, _ => [.evaluated initial]
  | rest result source, machine =>
      [.received (((rest result source).fragment.run runtime machine).values result)]
  | seq first second, machine =>
      first.events machine ++ second.events (first.fragment.run runtime machine)

end Script

def Script.withDefault (initial : Initial) (result : Nat) (source : Operand) : Script :=
  .seq (.default initial)
    (.call result "jayess_destructure_default" [valueArg source, valueArg initial.value])

def Script.element (index fallback result : Nat) (source : Operand) : Script :=
  .seq (.call fallback "jayess_value_undefined" [])
    (.call result "jayess_destructure_array_index"
      [valueArg source, ⟨"i32", .int index⟩, valueArg (.named fallback)])

def Script.elements (start result : Nat) (source : Operand) : Script :=
  .call result "jayess_destructure_array_rest" [valueArg source, ⟨"i32", .int start⟩]

def Script.property (key : Initial) (fallback result : Nat) (source : Operand) : Script :=
  .seq (.lines key.fragment) (.seq (.call fallback "jayess_value_undefined" [])
    (.call result "jayess_destructure_property"
      [valueArg source, valueArg key.value, valueArg (.named fallback)]))

/-- The code that binds the names of a pattern to the parts of a value. -/
inductive Coded (locals : String → Option LocalSlot) :
    Pattern Initial → Operand → Script → Prop where
  | done {source : Operand} : Coded locals .done source (.lines .nil)
  | name {binding : String} {slot : LocalSlot} {source : Operand}
      (hslot : locals binding = some slot) :
      Coded locals (.name binding) source (.lines (.plain (.store source slot)))
  | default {initial : Initial} {inner : Pattern Initial} {source : Operand} {result : Nat}
      {script : Script} (hinner : Coded locals inner (.named result) script) :
      Coded locals (.default initial inner) source
        (.seq (.withDefault initial result source) script)
  | element {index fallback result : Nat} {inner rest : Pattern Initial} {source : Operand}
      {script others : Script} (hinner : Coded locals inner (.named result) script)
      (hrest : Coded locals rest source others) :
      Coded locals (.element index inner rest) source
        (.seq (.element index fallback result source) (.seq script others))
  | elements {start result : Nat} {inner rest : Pattern Initial} {source : Operand}
      {script others : Script} (hinner : Coded locals inner (.named result) script)
      (hrest : Coded locals rest source others) :
      Coded locals (.elements start inner rest) source
        (.seq (.elements start result source) (.seq script others))
  | property {key : Initial} {fallback result : Nat} {inner rest : Pattern Initial}
      {source : Operand} {script others : Script}
      (hinner : Coded locals inner (.named result) script)
      (hrest : Coded locals rest source others) :
      Coded locals (.property key inner rest) source
        (.seq (.property key fallback result source) (.seq script others))
  | others {result : Nat} {inner rest : Pattern Initial} {source : Operand}
      {script others : Script} (hinner : Coded locals inner (.named result) script)
      (hrest : Coded locals rest source others) :
      Coded locals (.others inner rest) source (.seq (.rest result source) (.seq script others))

variable {source value : Operand} {name : String} {result : Unit}

theorem Coded.hasSlot {locals : String → Option LocalSlot} {tree : Pattern Initial}
    {script : Script} (hcoded : Coded locals tree source script) :
    ∀ name ∈ tree.names, ∃ slot, locals name = some slot := by
  induction hcoded with
  | done => simp [Pattern.names]
  | name hslot => simpa [Pattern.names] using ⟨_, hslot⟩
  | default _ ihinner => exact ihinner
  | element _ _ ihinner ihrest | elements _ _ ihinner ihrest | property _ _ ihinner ihrest
    | others _ _ ihinner ihrest =>
      intro name hname
      rcases List.mem_append.mp hname with hname | hname
      · exact ihinner name hname
      · exact ihrest name hname

/-- `emitted` is `emitter` with the lines of a script appended. -/
structure AppendsScript (emitter : ExpressionEmitter) (script : Script)
    (emitted : ExpressionEmitter) : Prop where
  body : emitted.body = emitter.body ++ script.fragment.lines
  numbered : Numbered emitter.counters script.fragment emitted.counters
  locals : emitted.locals = emitter.locals

theorem AppendsScript.seq {emitter middle emitted : ExpressionEmitter} {first second : Script}
    (hfirst : AppendsScript emitter first middle) (hsecond : AppendsScript middle second emitted) :
    AppendsScript emitter (.seq first second) emitted where
  body := by
    rw [hsecond.body, hfirst.body, List.append_assoc]
    rfl
  numbered := .seq hfirst.numbered hsecond.numbered
  locals := hsecond.locals.trans hfirst.locals

theorem localsIn_slotNames (emitter : ExpressionEmitter) : LocalsIn slotNames emitter :=
  fun _ slot _ => ⟨slot.index, rfl⟩

def Computes (part : Script → Nat → Prop) (action : ExprM Operand) : Prop :=
  ∀ emitter value emitted, action emitter = .ok (value, emitted) →
    ∃ script result, part script result ∧ value = .named result ∧
      AppendsScript emitter script emitted

theorem emitRuntimeValueCall_computes {symbol : String} {args : List RuntimeCallArg} :
    Computes (fun script result => script = .call result symbol args)
      (emitRuntimeValueCall symbol args) := by
  intro emitter value emitted hrun
  obtain ⟨rfl, rfl⟩ := emitRuntimeCall_run hrun
  have hcounted : Numbered emitter.counters
      (Script.call emitter.valueIndex symbol args).fragment
      { emitter.counters with value := emitter.counters.value + 1 } := .define rfl rfl
  exact ⟨_, emitter.valueIndex, rfl, rfl, rfl, hcounted, rfl⟩

theorem emitRuntimeUndefined_computes :
    Computes (fun script result => script = .call result "jayess_value_undefined" [])
      emitRuntimeUndefined := by
  intro emitter value emitted hrun
  obtain ⟨rfl, hbody, hcounters, hkeeps, -⟩ := emitRuntimeLiteral_run hrun
  refine ⟨_, emitter.valueIndex, rfl, rfl, hbody, ?_, hkeeps.1⟩
  rw [hcounters]
  exact .define rfl rfl

theorem emit_appends {source : Source} {emitter emitted : ExpressionEmitter} {value : Operand}
    (hrun : source.emit emitter = .ok (value, emitted)) :
    ∃ initial : Initial, initial.source = source ∧ initial.value = value ∧
      AppendsScript emitter (.default initial) emitted := by
  have hemits : ∃ shape, EmitsValue slotNames shape source.emit := by
    cases source with
    | expression value => exact ⟨_, emitExpression_emits value slotNames⟩
    | key text => exact ⟨_, emitRuntimeString_emits⟩
  obtain ⟨shape, hemits⟩ := hemits
  obtain ⟨fragment, hemission, hgives⟩ := hemits _ _ _ (localsIn_slotNames emitter) hrun
  exact ⟨⟨source, fragment, value, _, _, hemission.numbered, hemission.closed, hgives.1,
    emitter, emitted, hrun, hemission.body⟩, rfl, rfl, hemission.body, hemission.numbered,
    hemission.keeps.1⟩

theorem emitRuntimeArrayIndex_computes {index : Nat} :
    Computes (fun script result => ∃ fallback, script = .element index fallback result source)
      (emitRuntimeArrayIndex source index) := by
  intro emitter value emitted hrun
  obtain ⟨fallback, middle, hundefined, hcall⟩ := bind_eq_ok.mp hrun
  obtain ⟨_, fallback, rfl, rfl, happends⟩ := emitRuntimeUndefined_computes _ _ _ hundefined
  obtain ⟨_, result, rfl, rfl, happends'⟩ := emitRuntimeValueCall_computes _ _ _ hcall
  exact ⟨_, result, ⟨fallback, rfl⟩, rfl, happends.seq happends'⟩

theorem emitRuntimeArrayRest_computes {start : Nat} :
    Computes (fun script result => script = .elements start result source)
      (emitRuntimeArrayRest source start) :=
  emitRuntimeValueCall_computes

theorem emitRuntimeObjectRest_computes :
    Computes (fun script result => script = .rest result source)
      (emitRuntimeObjectRest source) := by
  intro emitter value emitted hrun
  obtain ⟨_, result, rfl, hvalue, happends⟩ := emitRuntimeValueCall_computes _ _ _ hrun
  exact ⟨_, result, rfl, hvalue, happends.body, happends.numbered, happends.locals⟩

theorem emitKey_eq_ok {key : String} {keyExpr : Option Expression} {computed : Bool}
    {emitter emitted : ExpressionEmitter}
    (hrun : emitPropertyKey "object binding" key computed (keyExpr.map emitExpression) emitter =
      .ok (value, emitted)) :
    (keySource key keyExpr computed).emit emitter = .ok (value, emitted) := by
  unfold emitPropertyKey at hrun
  cases computed with
  | false => cases keyExpr <;> exact hrun
  | true =>
      cases keyExpr with
      | none => simp [fail] at hrun
      | some keyExpr => exact hrun

theorem emitProperty_computes {key : String} {keyExpr : Option Expression} {computed : Bool} :
    Computes (fun script result => ∃ (initial : Initial) (fallback : Nat),
        initial.source = keySource key keyExpr computed ∧
          script = .property initial fallback result source)
      (emitObjectPart key keyExpr computed false source) := by
  intro emitter value emitted hrun
  obtain ⟨keyValue, middle, hkey, hrun⟩ := bind_eq_ok.mp hrun
  obtain ⟨initial, hinitial, rfl, happends⟩ := emit_appends (emitKey_eq_ok hkey)
  obtain ⟨fallback, middle', hundefined, hcall⟩ := bind_eq_ok.mp hrun
  obtain ⟨_, fallback, rfl, rfl, hfallback⟩ := emitRuntimeUndefined_computes _ _ _ hundefined
  obtain ⟨_, result, rfl, rfl, hproperty⟩ := emitRuntimeValueCall_computes _ _ _ hcall
  have hlines : AppendsScript emitter (.lines initial.fragment) middle :=
    ⟨happends.body, happends.numbered, happends.locals⟩
  exact ⟨_, result, ⟨initial, fallback, hinitial, rfl⟩, rfl,
    hlines.seq (hfallback.seq hproperty)⟩

def Destructures (pattern : Pattern Source) (source : Operand) (action : ExprM Unit) : Prop :=
  ∀ emitter result emitted, action emitter = .ok (result, emitted) →
    ∃ tree script, tree.map Initial.source = pattern ∧ Coded emitter.locals tree source script ∧
      AppendsScript emitter script emitted

theorem destructures_part {part : Script → Nat → Prop} {emitPart : ExprM Operand}
    {emitPattern : Operand → ExprM Unit} {emitRest : ExprM Unit} {inner rest whole : Pattern Source}
    (hpart : Computes part emitPart)
    (hpattern : ∀ result, Destructures inner (.named result) (emitPattern (.named result)))
    (hrest : Destructures rest source emitRest)
    (hcoded : ∀ {locals script result} {innerTree restTree : Pattern Initial} {innerScript others},
      part script result → innerTree.map Initial.source = inner →
      restTree.map Initial.source = rest → Coded locals innerTree (.named result) innerScript →
      Coded locals restTree source others →
      ∃ tree, tree.map Initial.source = whole ∧
        Coded locals tree source (.seq script (.seq innerScript others))) :
    Destructures whole source (do
      let value ← emitPart
      emitPattern value
      emitRest) := by
  intro emitter _ emitted hrun
  obtain ⟨value, middle, hemitPart, hrun⟩ := bind_eq_ok.mp hrun
  obtain ⟨script, result, hscript, rfl, happends⟩ := hpart _ _ _ hemitPart
  obtain ⟨_, middle', hemitPattern, hemitRest⟩ := bind_eq_ok.mp hrun
  obtain ⟨innerTree, innerScript, hinner, hinnerCoded, happends'⟩ :=
    hpattern result _ _ _ hemitPattern
  obtain ⟨restTree, others, hothers, hrestCoded, happends''⟩ := hrest _ _ _ hemitRest
  rw [happends.locals] at hinnerCoded
  rw [happends'.locals, happends.locals] at hrestCoded
  obtain ⟨tree, htree, hwhole⟩ := hcoded hscript hinner hothers hinnerCoded hrestCoded
  exact ⟨tree, _, htree, hwhole, happends.seq (happends'.seq happends'')⟩

theorem store_destructures :
    Destructures (.name name) source (do
      let target ← resolveLocal name
      target.store source) := by
  intro emitter _ emitted hrun
  obtain ⟨target, middle, hresolve, hstore⟩ := bind_eq_ok.mp hrun
  obtain ⟨rfl, rfl⟩ := resolveLocal_run hresolve
  obtain ⟨slot, hslot, rfl⟩ := storeLocal_run hstore
  exact ⟨.name name, _, rfl, .name hslot, rfl, .act rfl rfl, rfl⟩

mutual

theorem emitDestructureToPattern_destructures : ∀ (pattern : Option BindingPattern)
    (source : Operand),
    Destructures (patternTree pattern) source (emitDestructureToPattern pattern source)
  | none, source => fun emitter _ emitted hrun => by
      obtain ⟨-, rfl⟩ := by simpa [emitDestructureToPattern] using hrun
      exact ⟨.done, _, rfl, .done, by simp [Script.fragment, Fragment.lines], .nil, rfl⟩
  | some pattern, source => emitDestructure_destructures pattern source

theorem emitDestructure_destructures : ∀ (pattern : BindingPattern) (source : Operand),
    Destructures (bindingTree pattern) source (emitDestructure pattern source)
  | .name name, source => store_destructures
  | .default pattern value, source => fun emitter _ emitted hrun => by
      obtain ⟨fallback, middle, hfallback, hrun⟩ := bind_eq_ok.mp hrun
      obtain ⟨initial, hinitial, rfl, happends⟩ := @emit_appends (.expression value) _ _ _ hfallback
      obtain ⟨chosen, middle', hchosen, hrun⟩ := bind_eq_ok.mp hrun
      obtain ⟨_, result, rfl, rfl, happends'⟩ := emitRuntimeValueCall_computes _ _ _ hchosen
      obtain ⟨tree, script, htree, hcoded, happends''⟩ :=
        emitDestructureToPattern_destructures pattern (.named result) _ _ _ hrun
      rw [happends'.locals, happends.locals] at hcoded
      refine ⟨.default initial tree, _, ?_, .default hcoded,
        (happends.seq happends').seq happends''⟩
      rw [Pattern.map, hinitial, htree]
      rfl
  | .rest pattern, source => emitDestructureToPattern_destructures pattern source
  | .array elements, source => emitArrayDestructure_destructures elements source 0
  | .object properties, source => emitObjectDestructure_destructures properties source

theorem emitArrayDestructure_destructures : ∀ (elements : List (Option BindingPattern))
    (source : Operand) (index : Nat),
    Destructures (elementsTree elements index) source (emitArrayDestructure elements source index)
  | [], source, _ => fun emitter _ emitted hrun => by
      obtain ⟨-, rfl⟩ := by simpa [emitArrayDestructure] using hrun
      exact ⟨.done, _, rfl, .done, by simp [Script.fragment, Fragment.lines], .nil, rfl⟩
  | none :: rest, source, index => emitArrayDestructure_destructures rest source (index + 1)
  | some element :: rest, source, index => by
      have hpattern result := emitDestructure_destructures element (.named result)
      have hrest := emitArrayDestructure_destructures rest source (index + 1)
      cases element with
      | rest pattern =>
          refine destructures_part emitRuntimeArrayRest_computes hpattern hrest ?_
          rintro locals script result innerTree restTree innerScript others rfl hinner hothers
            hinnerCoded hrestCoded
          refine ⟨.elements index innerTree restTree, ?_, .elements hinnerCoded hrestCoded⟩
          rw [Pattern.map, hinner, hothers]
          rfl
      | _ =>
          refine destructures_part emitRuntimeArrayIndex_computes hpattern hrest ?_
          rintro locals script result innerTree restTree innerScript others ⟨fallback, rfl⟩ hinner
            hothers hinnerCoded hrestCoded
          refine ⟨.element index innerTree restTree, ?_, .element hinnerCoded hrestCoded⟩
          rw [Pattern.map, hinner, hothers]
          rfl

theorem emitObjectDestructure_destructures : ∀ (properties : List ObjectBindingProperty)
    (source : Operand),
    Destructures (propertiesTree properties) source (emitObjectDestructure properties source)
  | [], source => fun emitter _ emitted hrun => by
      obtain ⟨-, rfl⟩ := by simpa [emitObjectDestructure] using hrun
      exact ⟨.done, _, rfl, .done, by simp [Script.fragment, Fragment.lines], .nil, rfl⟩
  | ⟨key, keyExpr, pattern, computed, isRest⟩ :: rest, source => by
      have hpattern result := emitDestructureToPattern_destructures pattern (.named result)
      have hrest := emitObjectDestructure_destructures rest source
      cases isRest with
      | true =>
          refine destructures_part emitRuntimeObjectRest_computes hpattern hrest ?_
          rintro locals script result innerTree restTree innerScript others rfl hinner hothers
            hinnerCoded hrestCoded
          refine ⟨.others innerTree restTree, ?_, .others hinnerCoded hrestCoded⟩
          rw [Pattern.map, hinner, hothers]
          rfl
      | false =>
          refine destructures_part emitProperty_computes hpattern hrest ?_
          rintro locals script result innerTree restTree innerScript others
            ⟨initial, fallback, hinitial, rfl⟩ hinner hothers hinnerCoded hrestCoded
          refine ⟨.property initial innerTree restTree, ?_, .property hinnerCoded hrestCoded⟩
          rw [Pattern.map, hinitial, hinner, hothers]
          rfl

end

/-- A line that makes a slot ready: it is allocated and holds no value, or an undefined value is
made. -/
def Line.isDeclaration : Line → Bool
  | .alloca _ | .store .undef _ => true
  | .call _ _ symbol _ => symbol == "jayess_value_undefined"
  | _ => false

def MakesReady (action : ExprM Unit) : Prop :=
  ∀ emitter result emitted, action emitter = .ok (result, emitted) → ∃ fragment : Fragment,
    emitted.body = emitter.body ++ fragment.lines ∧
      Numbered emitter.counters fragment emitted.counters ∧
      ∀ line ∈ fragment.lines, line.isDeclaration = true

theorem MakesReady.done : MakesReady (pure ()) := by
  intro emitter _ emitted hrun
  obtain ⟨-, rfl⟩ := by simpa using hrun
  exact ⟨.nil, by simp [Fragment.lines], .nil, by simp [Fragment.lines]⟩

theorem MakesReady.seq {action next : ExprM Unit} (haction : MakesReady action)
    (hnext : MakesReady next) : MakesReady (do action; next) := by
  intro emitter _ emitted hrun
  obtain ⟨_, middle, hfirst, hsecond⟩ := bind_eq_ok.mp hrun
  obtain ⟨first, hbody, hnumbered, hlines⟩ := haction _ _ _ hfirst
  obtain ⟨second, hbody', hnumbered', hlines'⟩ := hnext _ _ _ hsecond
  refine ⟨.seq first second, ?_, .seq hnumbered hnumbered', fun line hline => ?_⟩
  · rw [hbody', hbody, List.append_assoc]
    rfl
  · rcases List.mem_append.mp hline with hline | hline
    · exact hlines line hline
    · exact hlines' line hline

theorem declareLocal_run {emitter emitted : ExpressionEmitter}
    (hrun : declareLocal name value emitter = .ok (result, emitted)) :
    emitted.body = emitter.body ++
        [.alloca ⟨emitter.slotIndex⟩, .store value ⟨emitter.slotIndex⟩] ∧
      emitted.counters = { emitter.counters with slot := emitter.counters.slot + 1 } ∧
      emitted.locals name = some ⟨emitter.slotIndex⟩ := by
  obtain ⟨hname, rfl⟩ := declareLocal_eq hrun
  exact ⟨rfl, rfl, Function.update_self _ _ _⟩

theorem declareLocal_ready : MakesReady (declareLocal name .undef) := by
  intro emitter _ emitted hrun
  obtain ⟨hbody, hcounters, -⟩ := declareLocal_run hrun
  refine ⟨.seq (.plain (.alloca ⟨emitter.slotIndex⟩))
    (.plain (.store .undef ⟨emitter.slotIndex⟩)), hbody, ?_, ?_⟩
  · rw [hcounters]
    exact .seq .alloca (.act rfl rfl)
  · simp [Fragment.lines, Line.isDeclaration]

mutual

theorem declareBindingTargets_ready : ∀ pattern : Option BindingPattern,
    MakesReady (declareBindingTargets pattern .undef)
  | none => .done
  | some pattern => declarePatternTargets_ready pattern

theorem declarePatternTargets_ready : ∀ pattern : BindingPattern,
    MakesReady (declarePatternTargets pattern .undef)
  | .name _ => declareLocal_ready
  | .default pattern _ => declareBindingTargets_ready pattern
  | .rest pattern => declareBindingTargets_ready pattern
  | .array elements => declareElementTargets_ready elements
  | .object properties => declarePropertyTargets_ready properties

theorem declareElementTargets_ready : ∀ elements : List (Option BindingPattern),
    MakesReady (declareElementTargets elements .undef)
  | [] => .done
  | element :: rest =>
      (declareBindingTargets_ready element).seq (declareElementTargets_ready rest)

theorem declarePropertyTargets_ready : ∀ properties : List ObjectBindingProperty,
    MakesReady (declarePropertyTargets properties .undef)
  | [] => .done
  | ⟨_, _, pattern, _, _⟩ :: rest =>
      (declareBindingTargets_ready pattern).seq (declarePropertyTargets_ready rest)

end

/-- The code of a declaration: slots are made ready for the names of a pattern, and then a value is
taken apart. -/
structure DeclarationCode (pattern : Option BindingPattern) (value source : Operand)
    (emitter emitted : ExpressionEmitter) (ready : Fragment) (tree : Pattern Initial)
    (script : Script) : Prop where
  body : emitted.body = emitter.body ++ (ready.lines ++ script.fragment.lines)
  isReady : ∀ line ∈ ready.lines, line.isDeclaration = true
  sources : tree.map Initial.source = patternTree pattern
  coded : Coded emitted.locals tree source script
  numbered : ∃ middle, Numbered emitter.counters ready middle ∧
    Numbered middle script.fragment emitted.counters
  given : value ≠ .undef → source = value
  missing : value = .undef → ∃ result rest, source = .named result ∧
    ready = .seq (.plain (runtimeLine result "jayess_value_undefined" [])) rest

theorem emitBindingDeclaration_name {emitter emitted : ExpressionEmitter}
    (hrun : declareLocal name value emitter = .ok (result, emitted)) (hvalue : value ≠ .undef) :
    ∃ ready tree script,
      DeclarationCode (some (.name name)) value value emitter emitted ready tree script := by
  obtain ⟨hbody, hcounters, hlocal⟩ := declareLocal_run hrun
  refine ⟨.plain (.alloca ⟨emitter.slotIndex⟩), .name name,
    .lines (.plain (.store value ⟨emitter.slotIndex⟩)), hbody, ?_, rfl, .name hlocal, ?_,
    fun _ => rfl, fun heq => absurd heq hvalue⟩
  · simp [Fragment.lines, Line.isDeclaration]
  · rw [hcounters]
    exact ⟨_, .alloca, .act rfl rfl⟩

theorem emitBindingDeclaration_coded {pattern : Option BindingPattern}
    {emitter emitted : ExpressionEmitter}
    (hrun : emitBindingDeclaration pattern value emitter = .ok (result, emitted))
    (hvalue : value = .undef → bindingName pattern = none) :
    ∃ source ready tree script,
      DeclarationCode pattern value source emitter emitted ready tree script := by
  cases hname : bindingName pattern with
  | some name =>
    have hdeclare : declareLocal name value emitter = .ok (result, emitted) := by
      simpa [emitBindingDeclaration, hname] using hrun
    have hpattern : pattern = some (.name name) := by
      unfold bindingName at hname
      split at hname
      · split at hname
        · cases hname
        · rw [Option.some.inj hname]
      · cases hname
    subst hpattern
    have hgiven : value ≠ .undef := fun heq => by simp [hvalue heq] at hname
    exact ⟨value, emitBindingDeclaration_name hdeclare hgiven⟩
  | none =>
    rw [emitBindingDeclaration, hname] at hrun
    obtain ⟨source, middle, hsource, hrun⟩ := bind_eq_ok.mp hrun
    obtain ⟨_, middle', hdeclare, hdestructure⟩ := bind_eq_ok.mp hrun
    obtain ⟨ready, hbody, hnumbered, hready⟩ := declareBindingTargets_ready pattern _ _ _ hdeclare
    obtain ⟨tree, script, htree, hcoded, happends⟩ :=
      emitDestructureToPattern_destructures pattern source _ _ _ hdestructure
    rw [← happends.locals] at hcoded
    unfold emitPatternSource at hsource
    by_cases hundef : value = .undef
    · rw [if_pos hundef] at hsource
      obtain ⟨_, result, rfl, rfl, hmissing⟩ := emitRuntimeUndefined_computes _ _ _ hsource
      refine ⟨.named result, .seq (.plain (runtimeLine result "jayess_value_undefined" [])) ready,
        tree, script, ?_, ?_, htree, hcoded,
        ⟨_, .seq hmissing.numbered hnumbered, happends.numbered⟩, ?_, ?_⟩
      · rw [happends.body, hbody, hmissing.body]
        simp [Fragment.lines, Script.fragment, Script.call]
      · intro line hline
        rcases List.mem_cons.mp hline with rfl | hline
        · rfl
        · exact hready line hline
      · exact fun hne => absurd hundef hne
      · exact fun _ => ⟨result, ready, rfl, rfl⟩
    · rw [if_neg hundef] at hsource
      obtain ⟨rfl, rfl⟩ := by simpa using hsource
      refine ⟨value, ready, tree, script, ?_, hready, htree, hcoded,
        ⟨_, hnumbered, happends.numbered⟩, fun _ => rfl, fun heq => absurd heq hundef⟩
      rw [happends.body, hbody, List.append_assoc]

end Jayess.Backend
