import Jayess.Backend.Declares
import Jayess.Backend.EmitStatementSpec

/-!
# The names a statement leaves bound

Which names have another slot after a statement than before it: the emitter gives a new slot to every
name it declares, and only what is declared between a push and a pop of a scope is undone.
-/

namespace Jayess.Backend

open HasExpressions (expressions)

variable {α β : Type}

theorem Numbered.slot_le {counters final : Counters} {fragment : Fragment}
    (hnumbered : Numbered counters fragment final) : counters.slot ≤ final.slot := by
  induction hnumbered with
  | nil | act | define => exact Nat.le_refl _
  | alloca => exact Nat.le_succ _
  | seq _ _ ihfirst ihsecond => exact ihfirst.trans ihsecond
  | branch _ _ _ _ _ _ ihtrue ihfalse => exact ihtrue.trans ihfalse

/-- Every slot in use was handed out. -/
def ExpressionEmitter.SlotsBelow (emitter : ExpressionEmitter) : Prop :=
  ∀ name slot, emitter.locals name = some slot → slot.index < emitter.slotIndex

structure Assigned (names : List String) (emitter emitted : ExpressionEmitter) : Prop where
  grows : emitter.slotIndex ≤ emitted.slotIndex
  fresh : ∀ name ∈ names, ∃ slot, emitted.locals name = some slot ∧
    emitter.slotIndex ≤ slot.index ∧ slot.index < emitted.slotIndex
  others : ∀ name, name ∉ names → emitted.locals name = emitter.locals name

namespace Assigned

variable {names more : List String} {emitter middle emitted : ExpressionEmitter}

theorem none (hgrows : emitter.slotIndex ≤ emitted.slotIndex)
    (hlocals : emitted.locals = emitter.locals) : Assigned [] emitter emitted :=
  ⟨hgrows, nofun, fun name _ => congrFun hlocals name⟩

theorem trans (hfirst : Assigned names emitter middle) (hsecond : Assigned more middle emitted) :
    Assigned (names ++ more) emitter emitted where
  grows := hfirst.grows.trans hsecond.grows
  fresh name hname := by
    by_cases hmore : name ∈ more
    · obtain ⟨slot, hslot, hindex, hlast⟩ := hsecond.fresh name hmore
      exact ⟨slot, hslot, hfirst.grows.trans hindex, hlast⟩
    · have hnames : name ∈ names := (List.mem_append.mp hname).resolve_right hmore
      obtain ⟨slot, hslot, hindex, hlast⟩ := hfirst.fresh name hnames
      refine ⟨slot, (hsecond.others name hmore).trans hslot, hindex, ?_⟩
      exact Nat.lt_of_lt_of_le hlast hsecond.grows
  others name hname := by
    rw [List.mem_append, not_or] at hname
    exact (hsecond.others name hname.2).trans (hfirst.others name hname.1)

theorem before (hfirst : Assigned names emitter middle) (hsecond : Assigned [] middle emitted) :
    Assigned names emitter emitted := by
  have hboth := hfirst.trans hsecond
  rwa [List.append_nil] at hboth

theorem around {start final : ExpressionEmitter} (hassigned : Assigned names middle emitted)
    (hfirst : start.slotIndex = middle.slotIndex ∧ start.locals = middle.locals)
    (hsecond : final.slotIndex = emitted.slotIndex ∧ final.locals = emitted.locals) :
    Assigned names start final := by
  have hstart : Assigned [] start middle := none hfirst.1.le hfirst.2.symm
  have hfinal : Assigned [] emitted final := none hsecond.1.ge hsecond.2
  exact hstart.trans (hassigned.before hfinal)

theorem locals_eq_iff (hassigned : Assigned names emitter emitted) (hslots : emitter.SlotsBelow) :
    emitted.locals = emitter.locals ↔ names = [] := by
  constructor
  · intro hlocals
    by_contra hnames
    obtain ⟨name, hname⟩ := List.exists_mem_of_ne_nil names hnames
    obtain ⟨slot, hslot, hindex, -⟩ := hassigned.fresh name hname
    rw [hlocals] at hslot
    have hold := hslots name slot hslot
    omega
  · rintro rfl
    funext name
    exact hassigned.others name List.not_mem_nil

theorem slotsBelow (hassigned : Assigned names emitter emitted) (hslots : emitter.SlotsBelow) :
    emitted.SlotsBelow := by
  intro name slot hslot
  by_cases hname : name ∈ names
  · obtain ⟨bound, hbound, -, hlast⟩ := hassigned.fresh name hname
    obtain rfl : bound = slot := Option.some.inj (hbound.symm.trans hslot)
    exact hlast
  · rw [hassigned.others name hname] at hslot
    exact Nat.lt_of_lt_of_le (hslots name slot hslot) hassigned.grows

end Assigned

def Assigns {σ : Type} [HasExpressions σ] (names : List String)
    (action : StateT σ (Except EmitError) α) : Prop :=
  ∀ emitter value emitted, action emitter = .ok (value, emitted) →
    Assigned names (expressions emitter) (expressions emitted)

abbrev Steady {σ : Type} [HasExpressions σ] (action : StateT σ (Except EmitError) α) : Prop :=
  Assigns [] action

section Rules

variable {σ : Type} [HasExpressions σ] {action : StateT σ (Except EmitError) α}
  {next : α → StateT σ (Except EmitError) β}

namespace Assigns

variable {names more : List String}

theorem pure {value : α} : Steady (Pure.pure value : StateT σ (Except EmitError) α) := by
  intro emitter result emitted hrun
  simp only [pure_eq_ok, Prod.mk.injEq] at hrun
  rw [hrun.2]
  exact .none (Nat.le_refl _) rfl

theorem bind (haction : Assigns names action) (hnext : ∀ value, Assigns more (next value)) :
    Assigns (names ++ more) (action >>= next) := by
  intro emitter result emitted hrun
  obtain ⟨value, middle, hfirst, hsecond⟩ := bind_eq_ok.mp hrun
  exact (haction _ _ _ hfirst).trans (hnext value _ _ _ hsecond)

theorem after (haction : Steady action) (hnext : ∀ value, Assigns more (next value)) :
    Assigns more (action >>= next) :=
  haction.bind hnext

theorem before (haction : Assigns names action) (hnext : ∀ value, Steady (next value)) :
    Assigns names (action >>= next) := by
  have hboth := haction.bind hnext
  rwa [List.append_nil] at hboth

theorem withDiagnostic {pos : SourcePos} (haction : Assigns names action) :
    Assigns names (withDiagnostic pos action) :=
  fun emitter value emitted hrun => haction emitter value emitted (withDiagnostic_eq_ok.mp hrun)

theorem unless_fail {condition : Prop} [Decidable condition] {message : String}
    (haction : Assigns names action) :
    Assigns names (do
      if condition then Backend.fail message
      action) := by
  intro emitter value emitted hrun
  exact haction _ _ _ (unless_fail_run hrun).2

theorem forM {ι : Type} {items : List ι} {bound : ι → List String}
    {body : ι → StateT σ (Except EmitError) Unit} (hbody : ∀ item, Assigns (bound item) (body item)) :
    Assigns (items.flatMap bound) (items.forM body) := by
  induction items with
  | nil => exact pure
  | cons item rest ih => exact (hbody item).bind fun _ => ih

end Assigns

end Rules

theorem Assigns.expr {names : List String} {action : ExprM α} (haction : Assigns names action) :
    Assigns names (Backend.expr action) := by
  intro emitter value emitted hrun
  obtain ⟨final, hfinal, rfl⟩ := expr_eq_ok.mp hrun
  exact haction _ _ _ hfinal

theorem Emits.steady {action : ExprM α} {post : α → Fragment → Prop}
    (hemits : Emits false Set.univ action post) : Steady action := by
  intro emitter value emitted hrun
  obtain ⟨fragment, hemission, -⟩ :=
    hemits emitter value emitted (fun _ _ _ => Set.mem_univ _) hrun
  exact .none hemission.numbered.slot_le hemission.keeps.1

theorem Appends.steady {declares : Bool} {ready : α → Set Name → Prop} {shape : Shape}
    {action : StmtM α} (happends : Appends declares Set.univ ready shape action)
    (hquiet : Quiet action) : Steady action := by
  intro emitter value emitted hrun
  obtain ⟨fragment, hstraight, -⟩ :=
    happends emitter value emitted (fun _ _ _ => Set.mem_univ _) hrun
  exact .none hstraight.emission.numbered.slot_le (hquiet emitter value emitted hrun).2

theorem Operand.in_univ (value : Operand) : value.In Set.univ := fun _ _ => Set.mem_univ _

variable {name : String} {pattern : Option BindingPattern}

theorem declareLocal_assigns {value : Operand} :
    Assigns [name] (declareLocal name value) := by
  intro emitter result emitted hrun
  obtain ⟨-, rfl⟩ := declareLocal_eq hrun
  constructor
  · exact Nat.le_succ emitter.slotIndex
  · intro other hother
    obtain rfl := List.mem_singleton.mp hother
    refine ⟨⟨emitter.slotIndex⟩, ?_, Nat.le_refl _, Nat.lt_succ_self _⟩
    change Function.update emitter.locals other (some ⟨emitter.slotIndex⟩) other = _
    rw [Function.update_self]
  · intro other hother
    change Function.update emitter.locals name (some ⟨emitter.slotIndex⟩) other = _
    rw [Function.update_of_ne fun heq => hother (List.mem_singleton.mpr heq)]
    rfl

mutual

theorem declareBindingTargets_assigns : ∀ (pattern : Option BindingPattern) (value : Operand),
    Assigns (patternNames pattern) (declareBindingTargets pattern value)
  | none, _ => .pure
  | some pattern, value => declarePatternTargets_assigns pattern value

theorem declarePatternTargets_assigns : ∀ (pattern : BindingPattern) (value : Operand),
    Assigns (collectBindingNames pattern) (declarePatternTargets pattern value)
  | .name name, value => by
      rw [collectBindingNames]
      split
      · rename_i hname
        intro emitter result emitted hrun
        exact absurd hname (declareLocal_eq hrun).1
      · exact declareLocal_assigns
  | .default pattern _, value => declareBindingTargets_assigns pattern value
  | .rest pattern, value => declareBindingTargets_assigns pattern value
  | .array elements, value => declareElementTargets_assigns elements value
  | .object properties, value => declarePropertyTargets_assigns properties value

theorem declareElementTargets_assigns :
    ∀ (elements : List (Option BindingPattern)) (value : Operand),
      Assigns (elementNames elements) (declareElementTargets elements value)
  | [], _ => .pure
  | element :: rest, value =>
      (declareBindingTargets_assigns element value).bind fun _ =>
        declareElementTargets_assigns rest value

theorem declarePropertyTargets_assigns :
    ∀ (properties : List ObjectBindingProperty) (value : Operand),
      Assigns (propertyNames properties) (declarePropertyTargets properties value)
  | [], _ => .pure
  | ⟨_, _, pattern, _, _⟩ :: rest, value =>
      (declareBindingTargets_assigns pattern value).bind fun _ =>
        declarePropertyTargets_assigns rest value

end

theorem emitBindingDeclaration_assigns {value : Operand} :
    Assigns (patternNames pattern) (emitBindingDeclaration pattern value) := by
  unfold emitBindingDeclaration
  split
  · rename_i name hname
    rw [bindingName_eq_some hname]
    exact declareLocal_assigns
  · have hsource := Emits.steady (emitPatternSource_emits value.in_univ)
    refine hsource.after fun source => ?_
    refine (declareBindingTargets_assigns pattern .undef).before fun _ => ?_
    exact Emits.steady (emitDestructureToPattern_emits pattern Set.univ source.in_univ)

theorem emitVariableDeclaration_assigns {pos : SourcePos} {value : Option Expression} :
    Assigns (patternNames pattern) (emitVariableDeclaration pos pattern value) := by
  have hvalue := Emits.steady (emitOptionalValue_emits value Set.univ)
  refine hvalue.expr.after fun _ => emitBindingDeclaration_assigns.expr.before fun _ => ?_
  exact (registerDeclarationLifetime_appends pos pattern).steady
    registerDeclarationLifetime_quiet

theorem emitFunctionDeclaration_assigns :
    Assigns [name] (emitFunctionDeclaration name) :=
  .unless_fail ((Emits.steady emitRuntimeFunctionNew_emits).after fun _ => declareLocal_assigns)

theorem emitClassDeclaration_assigns {superClass : Option Expression} {members : List ClassMember} :
    Assigns [name] (emitClassDeclaration name superClass members) := by
  refine .unless_fail <| (Emits.steady emitRuntimeString_emits).after fun _ => ?_
  refine Assigns.after ?_ fun base => ?_
  · exact Emits.steady (emitRuntimeCall_emits fun arg _ => arg.value.in_univ)
  refine (Emits.steady (emitClassBase_emits base.in_univ)).after fun classValue => ?_
  refine declareLocal_assigns.before fun _ => ?_
  refine (Emits.steady (emitClassMembers_emits members classValue.in_univ)).after fun _ => ?_
  exact Emits.steady (emitRuntimeVoidCall_emits fun arg _ => arg.value.in_univ)

def specifierNames (specifier : ImportSpecifier) : List String :=
  if importedLocalName specifier = "" then [] else [importedLocalName specifier]

theorem emitImportSpecifier_assigns {source : String} (specifier : ImportSpecifier) :
    Assigns (specifierNames specifier) (emitImportSpecifier source specifier) := by
  refine (Emits.steady registerStdlibImport_emits).after fun _ => ?_
  refine (Emits.steady emitImportedBinding_emits).after fun value => ?_
  rw [specifierNames]
  by_cases hname : importedLocalName specifier = ""
  · rw [if_neg (not_not_intro hname), if_pos hname]
    exact .pure
  · rw [if_pos hname, if_neg hname]
    exact declareLocal_assigns

def importedNames (specifiers : List ImportSpecifier) (sideEffect : Bool) : List String :=
  if sideEffect then [] else specifiers.flatMap specifierNames

theorem emitImportDeclaration_assigns {source : String} {specifiers : List ImportSpecifier}
    {sideEffect : Bool} :
    Assigns (importedNames specifiers sideEffect)
      (emitImportDeclaration source specifiers sideEffect) := by
  refine (Emits.steady emitRuntimeStringVoidCall_emits).after fun _ => ?_
  cases sideEffect with
  | true => exact .pure
  | false => exact .forM emitImportSpecifier_assigns

theorem prepareForEachTarget_assigns {pos : SourcePos} {target : Expression} :
    Assigns (patternNames pattern) (prepareForEachTarget pos pattern target) := by
  cases pattern with
  | none =>
      have htarget := Emits.steady (resolveAssignmentTarget_emits target Set.univ)
      exact htarget.expr.after fun _ => .pure
  | some pattern =>
      refine (declareBindingTargets_assigns (some pattern) .undef).expr.before fun _ => ?_
      have hregister := (registerDeclarationLifetime_appends pos (some pattern)).steady
        registerDeclarationLifetime_quiet
      exact hregister.after fun _ => .pure

/-- The names a statement leaves bound: those it declares itself, and those of the head of a
for-each loop, which are declared before the scope of the loop. -/
def boundNames : Statement → List String
  | .variableDecl _ _ _ pattern _ => patternNames pattern
  | .functionDecl _ name _ _ | .classDecl _ name _ _ => [name]
  | .importDecl _ _ specifiers sideEffect => importedNames specifiers sideEffect
  | .exportDecl _ (some declaration) .. => boundNames declaration
  | .labeledStatement _ _ statement => boundNames statement
  | .forInStatement _ _ pattern .. | .forOfStatement _ _ pattern .. => patternNames pattern
  | _ => []

def optionalNames : Option Statement → List String
  | some statement => boundNames statement
  | none => []

def Node.names : Node → List String
  | .statement single => boundNames single
  | .statements list => list.flatMap boundNames
  | .optional option => optionalNames option
  | .loop _ _ update _ => optionalNames update
  | .forLoop init _ update _ => optionalNames init ++ optionalNames update
  | .forEach _ _ _ pattern .. => patternNames pattern
  | .caught _ _ pattern body => patternNames pattern ++ body.flatMap boundNames
  | .part present node => if present then node.names else []
  | .scoped _ | .cases .. | .checks .. => []

theorem part_scoped_names (present : Bool) (node : Node) :
    (Node.part present (.scoped node)).names = [] := by
  cases present <;> rfl

section Derivations

variable {emitter emitted : StatementEmitter}

theorem straight_assigned {statement : Statement} (hstraight : isStraight statement = true)
    (hrun : emitStatement statement emitter = .ok ((), emitted)) :
    Assigned (boundNames statement) emitter.expressions emitted.expressions := by
  cases statement with
  | empty =>
      obtain ⟨-, rfl⟩ := Prod.mk.inj (pure_eq_ok.mp hrun)
      exact .none (Nat.le_refl _) rfl
  | variableDecl => exact emitVariableDeclaration_assigns.withDiagnostic _ _ _ hrun
  | functionDecl => exact emitFunctionDeclaration_assigns.expr.withDiagnostic _ _ _ hrun
  | classDecl => exact emitClassDeclaration_assigns.expr.withDiagnostic _ _ _ hrun
  | importDecl => exact emitImportDeclaration_assigns.expr.withDiagnostic _ _ _ hrun
  | assignment =>
      refine Assigns.withDiagnostic (Assigns.expr ?_) _ _ _ hrun
      exact Emits.steady emitAssignmentStatement_emits
  | expressionStatement _ expression =>
      have hvalue := Emits.steady (emitExpression_emits expression Set.univ)
      exact (hvalue.expr.after fun _ => .pure).withDiagnostic _ _ _ hrun
  | _ => cases hstraight

theorem Piece.assigned {ready : α → Set Name → Prop} {available : Set Name} {shape : Shape}
    {action : StmtM α} {fragment : Fragment} {value : α}
    (hpiece : Piece false ready available shape action emitter fragment value emitted) :
    Assigned [] emitter.expressions emitted.expressions :=
  .none hpiece.straight.emission.numbered.slot_le hpiece.straight.emission.keeps.1

theorem EnsuresReturn.assigned {target : ReturnTarget} {lines : List Line}
    (hensures : EnsuresReturn emitter target lines emitted) :
    Assigned [] emitter.expressions emitted.expressions := by
  cases hensures with
  | existing => exact .none (Nat.le_refl _) rfl
  | fresh => exact .none (Nat.le_succ _) rfl

theorem EnsuresThrowSlot.assigned {slot : LocalSlot} {lines : List Line}
    (hensures : EnsuresThrowSlot emitter slot lines emitted) :
    Assigned [] emitter.expressions emitted.expressions := by
  cases hensures with
  | existing => exact .none (Nat.le_refl _) rfl
  | fresh => exact .none (Nat.le_succ _) rfl

theorem FindsThrowTarget.assigned {target : BlockLabel}
    (hfinds : FindsThrowTarget emitter target emitted) :
    Assigned [] emitter.expressions emitted.expressions := by
  cases hfinds <;> exact .none (Nat.le_refl _) rfl

end Derivations

theorem Emitted.assigned {node : Node} {emitter emitted : StatementEmitter} {lines : List Line}
    (hemitted : Emitted node emitter lines emitted) :
    Assigned node.names emitter.expressions emitted.expressions := by
  induction hemitted with
  | straight hstraight hpiece => exact straight_assigned hstraight hpiece.run
  | @exportDecl _ declaration _ _ _ _ _ _ _ _ _ _ _ _ hexports ih =>
      have hall := ih.before hexports.assigned
      cases declaration <;> exact hall
  | block _ ih => exact ih
  | ifStatement hcondition _ _ ihthen ihelse =>
      have hthen := hcondition.assigned.trans (ihthen.around ⟨rfl, rfl⟩ ⟨rfl, rfl⟩)
      exact hthen.trans (ihelse.around ⟨rfl, rfl⟩ ⟨rfl, rfl⟩)
  | loop _ _ hcondition ihbody ihupdate =>
      have hbody := Assigned.around ihbody ⟨rfl, rfl⟩ ⟨rfl, rfl⟩
      have hupdate := hbody.trans (Assigned.around ihupdate ⟨rfl, rfl⟩ ⟨rfl, rfl⟩)
      exact hupdate.before (hcondition.assigned.around ⟨rfl, rfl⟩ ⟨rfl, rfl⟩)
  | whileStatement _ ih => exact Assigned.around ih ⟨rfl, rfl⟩ ⟨rfl, rfl⟩
  | doWhileReturns _ _ ih => exact Assigned.around ih ⟨rfl, rfl⟩ ⟨rfl, rfl⟩
  | doWhile _ _ _ ihfirst ihloop =>
      have hfirst := Assigned.around ihfirst ⟨rfl, rfl⟩ ⟨rfl, rfl⟩
      have hloop := hfirst.trans (Assigned.around ihloop ⟨rfl, rfl⟩ ⟨rfl, rfl⟩)
      exact hloop.around ⟨rfl, rfl⟩ ⟨rfl, rfl⟩
  | forStatement _ ih => exact ih
  | forLoop _ _ ihinit ihloop => exact ihinit.trans (Assigned.around ihloop ⟨rfl, rfl⟩ ⟨rfl, rfl⟩)
  | forEach hsource hprepare hiterator _ hstep hassign ih =>
      have hprepared := prepareForEachTarget_assigns _ _ _ hprepare.run
      have hhead := (hsource.assigned.trans hprepared).before hiterator.assigned
      have hbody := hhead.before (Assigned.around ih ⟨rfl, rfl⟩ ⟨rfl, rfl⟩)
      have hstepped := hbody.before (hstep.assigned.around ⟨rfl, rfl⟩ ⟨rfl, rfl⟩)
      exact hstepped.before (hassign.assigned.around ⟨rfl, rfl⟩ ⟨rfl, rfl⟩)
  | forInStatement _ ih | forOfStatement _ ih => exact ih
  | switchStatement hdiscriminant _ _ _ ihcases ihdefault ihchecks =>
      have hcases := hdiscriminant.assigned.trans (Assigned.around ihcases ⟨rfl, rfl⟩ ⟨rfl, rfl⟩)
      have hdefault := hcases.trans (Assigned.around ihdefault ⟨rfl, rfl⟩ ⟨rfl, rfl⟩)
      exact hdefault.trans (Assigned.around ihchecks ⟨rfl, rfl⟩ ⟨rfl, rfl⟩)
  | casesNil | checksNil | absent | optionalNone | statementsNil =>
      exact .none (Nat.le_refl _) rfl
  | casesCons _ _ ihbody ihrest =>
      have hbody := Assigned.around ihbody ⟨rfl, rfl⟩ ⟨rfl, rfl⟩
      exact hbody.trans (Assigned.around ihrest ⟨rfl, rfl⟩ ⟨rfl, rfl⟩)
  | checksCons htest _ ihrest =>
      have htested := htest.assigned.around ⟨rfl, rfl⟩ ⟨rfl, rfl⟩
      have hrest := htested.trans (Assigned.around ihrest ⟨rfl, rfl⟩ ⟨rfl, rfl⟩)
      exact hrest.around ⟨rfl, rfl⟩ ⟨rfl, rfl⟩
  | unlabeled _ ih => exact ih
  | labeledStatement _ _ _ ih => exact Assigned.around ih ⟨rfl, rfl⟩ ⟨rfl, rfl⟩
  | labeledBlock _ _ ih =>
      refine Assigned.around ih ⟨rfl, rfl⟩ ?_
      simp
  | breakStatement _ hcleanups | continueStatement _ _ hcleanups =>
      exact hcleanups.assigned.around ⟨rfl, rfl⟩ ⟨rfl, rfl⟩
  | returnStatement hvalue htarget hcleanups =>
      have htargeted := hvalue.assigned.trans htarget.assigned
      exact htargeted.before (hcleanups.assigned.around ⟨rfl, rfl⟩ ⟨rfl, rfl⟩)
  | throwStatement hvalue hslot htarget hcleanups =>
      have hslotted := hvalue.assigned.trans hslot.assigned
      have htargeted := hslotted.before htarget.assigned
      exact htargeted.before (hcleanups.assigned.around ⟨rfl, rfl⟩ ⟨rfl, rfl⟩)
  | tryStatement _ _ hslot _ _ _ ihtry ihcatch ihfinally =>
      rw [part_scoped_names] at ihcatch ihfinally
      have hslotted := hslot.assigned
      have htry := hslotted.trans (Assigned.around ihtry ⟨rfl, rfl⟩ ⟨rfl, rfl⟩)
      have hcatch := htry.trans (Assigned.around ihcatch ⟨rfl, rfl⟩ ⟨rfl, rfl⟩)
      have hall := hcatch.trans (Assigned.around ihfinally ⟨rfl, rfl⟩ ⟨rfl, rfl⟩)
      refine hall.around ⟨rfl, rfl⟩ ?_
      simp
  | uncaught _ ih => exact ih
  | caught hdeclare hbind _ ih =>
      have hdeclared := (declareBindingTargets_assigns _ _).expr _ _ _ hdeclare.run
      have hbound : Assigned [] _ _ := .none hbind.straight.emission.numbered.slot_le
        (bindCaught_quiet _ _ _ hbind.run).2
      exact (hdeclared.before (hbound.around ⟨rfl, rfl⟩ ⟨rfl, rfl⟩)).trans ih
  | present _ ih => exact ih
  | inScope hnode hleaves ih =>
      have hkeeps : Keeps false _ _ := (Emitted.inScope hnode hleaves).keeps
      exact .none (ih.grows.trans hleaves.numbered.slot_le) hkeeps.1
  | optionalSome _ ih => exact ih
  | statementsCons _ _ _ ihstatement ihrest => exact ihstatement.trans ihrest

theorem Keeps.scopes_length {declares : Bool} {emitter emitted : ExpressionEmitter}
    (hkeeps : Keeps declares emitter emitted) :
    emitted.scopes.length = emitter.scopes.length := by
  cases declares with
  | false => rw [hkeeps.2]
  | true =>
      cases hscopes : emitter.scopes with
      | nil => rw [hkeeps.1 hscopes]
      | cons scope outer =>
          obtain ⟨inner, hinner, -⟩ := hkeeps.2 scope outer hscopes
          rw [hinner, List.length_cons, List.length_cons]

/-- The mapping from names to slots and the height of the scopes are what they were. -/
def SameLocals (emitter emitted : ExpressionEmitter) : Prop :=
  emitted.locals = emitter.locals ∧ emitted.scopes.length = emitter.scopes.length

/-- A statement that leaves no name bound leaves the locals alone. One that does gives the name
another slot, in every state in which the slots in use were handed out, as they always are. -/
theorem emitStatement_sameLocals_iff (statement : Statement) (emitter emitted : StatementEmitter)
    (hrun : emitStatement statement emitter = .ok ((), emitted)) :
    (boundNames statement = [] → SameLocals emitter.expressions emitted.expressions) ∧
      (emitter.expressions.SlotsBelow →
        (SameLocals emitter.expressions emitted.expressions ↔ boundNames statement = []) ∧
          emitted.expressions.SlotsBelow) := by
  obtain ⟨lines, ⟨hemitted⟩⟩ := emitStatement_derives statement emitter emitted hrun
  have hassigned := hemitted.assigned
  have hheight := hemitted.keeps.scopes_length
  refine ⟨fun hnames => ⟨?_, hheight⟩, fun hslots => ⟨?_, hassigned.slotsBelow hslots⟩⟩
  · funext name
    refine hassigned.others name ?_
    rw [show (Node.statement statement).names = [] from hnames]
    exact List.not_mem_nil
  · exact (and_iff_left hheight).trans (hassigned.locals_eq_iff hslots)

/-- A variable, function, class or import declaration. -/
def isDeclaration : Statement → Bool
  | .variableDecl .. | .functionDecl .. | .classDecl .. | .importDecl .. => true
  | _ => false

/-- `var x = 1;` -/
def outerDeclaration : Statement :=
  .variableDecl ⟨1, 1⟩ .var "x" (some (.name "x")) (some (.numberLiteral ⟨1, 9⟩ "1"))

/-- `for (var x of "ab") {}` -/
def leakingLoop : Statement :=
  .forOfStatement ⟨2, 1⟩ .var (some (.name "x")) (.identifier ⟨2, 10⟩ "x")
    (.stringLiteral ⟨2, 15⟩ "ab") [] false

/-- `if (x) { var x = 2; }` -/
def scopedBranch : Statement :=
  .ifStatement ⟨2, 1⟩ (.identifier ⟨2, 5⟩ "x")
    [.variableDecl ⟨2, 10⟩ .var "x" (some (.name "x")) (some (.numberLiteral ⟨2, 18⟩ "2"))] []

/-- The block of a branch gives the name back, and the scopes are as high as before. -/
theorem scopedBranch_sameLocals : ∃ emitter emitted,
    emitStatement outerDeclaration newStatementEmitter = .ok ((), emitter) ∧
      emitStatement scopedBranch emitter = .ok ((), emitted) ∧
      (boundNames scopedBranch = [] →
        SameLocals emitter.expressions emitted.expressions) ∧
      (emitter.expressions.SlotsBelow →
        (SameLocals emitter.expressions emitted.expressions ↔ boundNames scopedBranch = []) ∧
          emitted.expressions.SlotsBelow) := by
  obtain ⟨_, emitted, hrun, -⟩ := exists_ok_of_check
    ((do emitStatement outerDeclaration; emitStatement scopedBranch : StmtM Unit)
      newStatementEmitter) (fun _ => true) (by decide +kernel)
  obtain ⟨_, emitter, hfirst, hsecond⟩ := bind_eq_ok.mp hrun
  exact ⟨emitter, emitted, hfirst, hsecond, emitStatement_sameLocals_iff _ _ _ hsecond⟩

/-- After the loop the name of the outer variable stands for the slot of the loop. -/
theorem leakingLoop_locals : isDeclaration leakingLoop = false ∧ ∃ emitter emitted,
    emitStatement outerDeclaration newStatementEmitter = .ok ((), emitter) ∧
      emitStatement leakingLoop emitter = .ok ((), emitted) ∧
      ¬SameLocals emitter.expressions emitted.expressions := by
  obtain ⟨_, emitter, hfirst, hslot⟩ := exists_ok_of_check
    (emitStatement outerDeclaration newStatementEmitter)
    (fun emitter => emitter.expressions.locals "x" = some ⟨0⟩) (by decide +kernel)
  obtain ⟨_, emitted, hrun, hleaked⟩ := exists_ok_of_check
    ((do emitStatement outerDeclaration; emitStatement leakingLoop : StmtM Unit)
      newStatementEmitter)
    (fun emitted => emitted.expressions.locals "x" = some ⟨1⟩) (by decide +kernel)
  obtain ⟨_, middle, hagain, hsecond⟩ := bind_eq_ok.mp hrun
  obtain rfl : emitter = middle := (Prod.mk.inj (Except.ok.inj (hfirst.symm.trans hagain))).2
  refine ⟨rfl, emitter, emitted, hfirst, hsecond, fun hsame => ?_⟩
  have hslots := congrFun hsame.1 "x"
  rw [of_decide_eq_true hslot, of_decide_eq_true hleaked] at hslots
  exact absurd hslots (by decide)

end Jayess.Backend
